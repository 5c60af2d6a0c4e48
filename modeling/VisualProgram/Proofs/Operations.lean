import VisualProgram.Proofs.SharedPass

namespace VisualProgram

abbrev BlockGraph.Member (g : BlockGraph) :=
  { b : Block // b ∈ g.blocks }

inductive Operation (g : BlockGraph) where
  | id (id : BlockId)
  | block (b : g.Member)
  | child (b : g.Member) (index : Nat)
  | socket (b : g.Member) (index : Nat)
  | socketOr (b : g.Member) (index : Nat) (missing : String)
  | call (b : g.Member) (name missing : String) (slots : List (Option Nat))
  | operator (b : g.Member) (token missing : String) (sockets : List Nat)
  | body (b : g.Member) (index : Nat) (header : Option String) (indented : Bool)
  | chain (first : g.Member)

namespace Session

variable {c : Context}

def compileChain (c : Context) (k : Budget) (b : Block) : Work (List String) :=
  chain c (compileBlock c k) k.chained ∅ b

def compileSlot (c : Context) (k : Budget) (b : Block) (s : Slot) : Work Filling :=
  slot c (compileBlock c k) (compileChain c k) b s

def applyRule (c : Context) (k : Budget) (r : Rule) (b : Block) : Work String :=
  rule c (compileBlock c k) (compileChain c k) r b

def compileSocket (c : Context) (k : Budget) (b : Block) (index : Nat) : Work (Option String) := do
  match ← compileSlot c k b (.value index) with
  | .value text => return text
  | .body _ => return none

def compileSocketOr (c : Context) (k : Budget) (b : Block) (index : Nat) (missing : String) :
    Work String :=
  (·.getD missing) <$> compileSocket c k b index

def compileBody (c : Context) (k : Budget) (b : Block) (index : Nat) (header : Option String)
    (indented : Bool) : Work String := do
  match ← compileSlot c k b (.body index) with
  | .body statements => return bodyText c.options header indented statements
  | .value _ => return bodyText c.options header indented []

theorem Does.map {α β : Type} {active : Finset BlockId} {w : Work α} {x : Logged α} (f : α → β)
    (h : Does active w x) : Does active (f <$> w) (f <$> x) := by
  rw [map_eq_pure_bind, map_eq_pure_bind]
  exact h.bind (Does.pure _)

theorem compileChain_does (b : Block) :
    Does ∅ (compileChain c .full b) (c.compileChain .empty .empty b) := by
  have hempty : Trail.empty.toFinset = ∅ := rfl
  unfold compileChain
  rw [← hempty]
  apply chain_does (fun _ d _ => mem_allIds d.id) (fun d _ => compileBlock_does c d) _ (mem_allIds b.id)
  exact (Finset.card_le_card Finset.sdiff_subset).trans card_allIds_le

theorem compileSlot_does (b : Block) (s : Slot) :
    Does ∅ (compileSlot c .full b s) (c.compileSlot .empty b s) :=
  slot_does (fun _ d _ _ => compileBlock_does c d) (fun _ d _ _ => compileChain_does d)

theorem applyRule_does (r : Rule) (b : Block) :
    Does ∅ (applyRule c .full r b) (c.applyRule .empty r b) :=
  rule_does fun s _ => compileSlot_does b s

theorem compileSocket_does (b : Block) (index : Nat) :
    Does ∅ (compileSocket c .full b index) (c.compileSocket b index) := by
  apply (compileSlot_does b (.value index)).bind
  cases (c.compileSlot .empty b (.value index)).value <;> exact Does.pure _

theorem compileSocketOr_does (b : Block) (index : Nat) (missing : String) :
    Does ∅ (compileSocketOr c .full b index missing) (c.compileSocketOr b index missing) :=
  (compileSocket_does b index).map _

theorem compileBody_does (b : Block) (index : Nat) (header : Option String) (indented : Bool) :
    Does ∅ (compileBody c .full b index header indented)
      (c.compileBody b index header indented) := by
  apply (compileSlot_does b (.body index)).bind
  cases (c.compileSlot .empty b (.body index)).value <;> exact Does.pure _

end Session

namespace Operation

open Session

variable {g : BlockGraph}

def work (c : Context) (k : Budget) : Operation g → Work (List String)
  | id i => ([·]) <$> compileId c k i
  | block b => ([·]) <$> compileBlock c k b
  | child b i => (·.toList.map fun d => d.id.text) <$> perform (c.child b i)
  | socket b i => Option.toList <$> compileSocket c k b i
  | socketOr b i missing => ([·]) <$> compileSocketOr c k b i missing
  | call b name missing slots =>
    ([·]) <$> applyRule c k (.call name missing (slots.filterMap fun s => s) none) b
  | operator b token missing sockets => ([·]) <$> applyRule c k (.operator token missing sockets) b
  | body b i header indented => ([·]) <$> compileBody c k b i header indented
  | chain b => compileChain c k b

def logged (c : Context) : Operation g → Logged (List String)
  | id i => ([·]) <$> c.compileId i
  | block b => ([·]) <$> c.compileBlock? (some b)
  | child b i => (·.toList.map fun d => d.id.text) <$> c.child b i
  | socket b i => Option.toList <$> c.compileSocket b i
  | socketOr b i missing => ([·]) <$> c.compileSocketOr b i missing
  | call b name missing slots => ([·]) <$> c.compileCall b name missing slots
  | operator b token missing sockets => ([·]) <$> c.compileOperator b token missing sockets
  | body b i header indented => ([·]) <$> c.compileBody b i header indented
  | chain b => c.compileChain .empty .empty b

theorem work_does (c : Context) (op : Operation g) : Does ∅ (op.work c .full) (op.logged c) := by
  cases op with
  | id i => exact (compileId_does c i).map _
  | block b => exact (compileBlock_does c _).map _
  | child b i => exact (Does.perform _).map _
  | socket b i => exact (compileSocket_does _ i).map _
  | socketOr b i missing => exact (compileSocketOr_does _ i missing).map _
  | call b name missing slots => exact (applyRule_does _ _).map _
  | operator b token missing sockets => exact (applyRule_does _ _).map _
  | body b i header indented => exact (compileBody_does _ i header indented).map _
  | chain b => exact compileChain_does _

theorem session_run (c : Context) (ops : List (Operation g)) :
    (ops.mapM (work c .full)).run start =
      some ((Logged.traverse (logged c) ops).value,
        start.record (Logged.traverse (logged c) ops).log) :=
  Does.mapM (fun op _ => work_does c op) start rfl

end Operation

end VisualProgram
