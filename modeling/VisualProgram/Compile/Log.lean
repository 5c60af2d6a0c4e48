import VisualProgram.Diagnostic
import VisualProgram.Sorted

namespace VisualProgram

structure Log where
  requests : List String
  diagnostics : List Diagnostic
  applied : List BlockId
  deriving DecidableEq

namespace Log

def empty : Log :=
  ⟨[], [], []⟩

def append (a b : Log) : Log :=
  ⟨a.requests ++ b.requests, a.diagnostics ++ b.diagnostics, a.applied ++ b.applied⟩

instance : Append Log :=
  ⟨append⟩

def modules (l : Log) : List String :=
  Sorted.ofList l.requests

theorem append_def (a b : Log) :
    a ++ b = ⟨a.requests ++ b.requests, a.diagnostics ++ b.diagnostics, a.applied ++ b.applied⟩ :=
  rfl

theorem empty_append (a : Log) : empty ++ a = a := by
  simp [append_def, empty]

theorem append_empty (a : Log) : a ++ empty = a := by
  simp [append_def, empty]

theorem append_assoc (a b c : Log) : a ++ b ++ c = a ++ (b ++ c) := by
  simp [append_def]

def join (ls : List Log) : Log :=
  ⟨ls.flatMap requests, ls.flatMap diagnostics, ls.flatMap applied⟩

def report (d : Diagnostic) : Log :=
  ⟨[], [d], []⟩

def require (modules : List String) : Log :=
  ⟨modules.filter (· ≠ ""), [], []⟩

def done (id : BlockId) : Log :=
  ⟨[], [], [id]⟩

end Log

structure Logged (α : Type) where
  value : α
  log : Log

namespace Logged

variable {α β : Type}

instance : Monad Logged where
  pure a := ⟨a, .empty⟩
  bind x f := ⟨(f x.value).value, x.log ++ (f x.value).log⟩

theorem ext {x y : Logged α} (hv : x.value = y.value) (hl : x.log = y.log) : x = y := by
  cases x
  cases y
  simp_all

theorem pure_def (a : α) : (pure a : Logged α) = ⟨a, .empty⟩ :=
  rfl

theorem bind_def (x : Logged α) (f : α → Logged β) :
    x >>= f = ⟨(f x.value).value, x.log ++ (f x.value).log⟩ :=
  rfl

theorem bind_congr {x : Logged α} {f g : α → Logged β} (h : f x.value = g x.value) :
    x >>= f = x >>= g := by
  rw [bind_def, bind_def, h]

theorem map_def (f : α → β) (x : Logged α) : f <$> x = ⟨f x.value, x.log⟩ :=
  ext rfl (Log.append_empty _)

instance : LawfulMonad Logged :=
  LawfulMonad.mk' Logged (fun x => ext rfl (Log.append_empty _))
    (fun _ _ => ext rfl (Log.empty_append _)) (fun _ _ _ => ext rfl (Log.append_assoc ..))

def tell (l : Log) : Logged Unit :=
  ⟨(), l⟩

def traverse (f : α → Logged β) : List α → Logged (List β)
  | [] => pure []
  | a :: as => do return (← f a) :: (← traverse f as)

theorem traverse_congr {f g : α → Logged β} {as : List α} (h : ∀ a ∈ as, f a = g a) :
    traverse f as = traverse g as := by
  induction as with
  | nil => rfl
  | cons a as ih =>
    have htail := ih fun b hb => h b (List.mem_cons_of_mem _ hb)
    rw [traverse, traverse, h a List.mem_cons_self, htail]

theorem traverse_eq (f : α → Logged β) (as : List α) :
    traverse f as = ⟨as.map fun a => (f a).value, .join (as.map fun a => (f a).log)⟩ := by
  induction as with
  | nil => rfl
  | cons a as ih =>
    rw [traverse, ih]
    apply ext
    · rfl
    · simp [bind_def, pure_def, Log.append_def, Log.join, Log.empty]

end Logged

end VisualProgram
