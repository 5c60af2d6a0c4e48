import VisualProgram.Block

namespace VisualProgram

structure Trail where
  /-- The last visited id first. -/
  ids : List BlockId
  nodup : ids.Nodup
  deriving DecidableEq

namespace Trail

def empty : Trail :=
  ⟨[], .nil⟩

instance : Membership BlockId Trail :=
  ⟨fun t id => id ∈ t.ids⟩

instance (id : BlockId) (t : Trail) : Decidable (id ∈ t) :=
  inferInstanceAs (Decidable (id ∈ t.ids))

def push (t : Trail) (id : BlockId) (h : id ∉ t) : Trail :=
  ⟨id :: t.ids, List.nodup_cons.2 ⟨h, t.nodup⟩⟩

def length (t : Trail) : Nat :=
  t.ids.length

theorem length_push {t : Trail} {id : BlockId} (h : id ∉ t) :
    (t.push id h).length = t.length + 1 :=
  rfl

theorem mem_push {t : Trail} {id x : BlockId} (h : id ∉ t) : x ∈ t.push id h ↔ x = id ∨ x ∈ t :=
  List.mem_cons

theorem notMem_empty (id : BlockId) : id ∉ empty :=
  List.not_mem_nil

theorem length_le (t : Trail) : t.length ≤ UInt64.size := by
  have hn : (t.ids.map BlockId.toNat).Nodup :=
    List.Pairwise.map _ (fun _ _ h h' => h (BlockId.toNat_inj.1 h')) t.nodup
  have hs : t.ids.map BlockId.toNat ⊆ List.range (UInt64.size) := by
    intro n hn
    obtain ⟨id, _, rfl⟩ := List.mem_map.1 hn
    exact List.mem_range.2 id.toNat_lt
  simpa [length] using hn.length_le_of_subset hs

def room (t : Trail) : Nat :=
  UInt64.size - t.length

theorem room_push_lt {t : Trail} {id : BlockId} (h : id ∉ t) : (t.push id h).room < t.room := by
  have := (t.push id h).length_le
  rw [length_push] at this
  simp only [room, length_push]
  omega

end Trail

end VisualProgram
