import VisualProgram.Table
import VisualProgram.Text.Blank

/-!
Blocks of a visual program. The genus of a block says what it means, and the position of a socket
what the block in it is for. Blocks name each other by their ids only.
-/

namespace VisualProgram

structure BlockId where
  value : UInt64
  deriving DecidableEq

namespace BlockId

def null : BlockId :=
  ⟨0⟩

def ofNat (n : Nat) : BlockId :=
  ⟨UInt64.ofNat n⟩

def toNat (id : BlockId) : Nat :=
  id.value.toNat

def text (id : BlockId) : String :=
  "#" ++ toString id.toNat

instance : LT BlockId :=
  ⟨fun a b => a.value < b.value⟩

instance : LE BlockId :=
  ⟨fun a b => a.value ≤ b.value⟩

instance : DecidableLT BlockId :=
  fun a b => inferInstanceAs (Decidable (a.value < b.value))

theorem eq_of_value_eq {a b : BlockId} (h : a.value = b.value) : a = b := by
  cases a
  cases b
  simp_all

theorem toNat_inj {a b : BlockId} : a.toNat = b.toNat ↔ a = b :=
  ⟨fun h => eq_of_value_eq (UInt64.toNat_inj.1 h), fun h => h ▸ rfl⟩

theorem toNat_lt (id : BlockId) : id.toNat < UInt64.size :=
  id.value.toNat_lt_size

theorem toNat_ofNat {n : Nat} (h : n < UInt64.size) : (ofNat n).toNat = n :=
  UInt64.toNat_ofNat_of_lt' h

instance : Std.IsLinearOrder BlockId where
  le_refl a := UInt64.le_refl a.value
  le_trans _ _ _ h h' := UInt64.le_trans h h'
  le_antisymm _ _ h h' := eq_of_value_eq (UInt64.le_antisymm h h')
  le_total a b := UInt64.le_total a.value b.value

instance : Std.LawfulOrderLT BlockId where
  lt_iff a b := Std.LawfulOrderLT.lt_iff a.value b.value

end BlockId

structure Socket where
  name : String
  kind : String
  block : Option BlockId
  deriving DecidableEq

namespace Socket

def anyKind : String :=
  "any"

def empty (name kind : String) : Socket :=
  ⟨name, kind, none⟩

def any (name : String) : Socket :=
  empty name anyKind

def argName (index : Nat) : String :=
  "arg" ++ toString index

def connect (s : Socket) (id : BlockId) : Socket :=
  { s with block := some id }

/-- A socket is taken by any id at all, even by one that names nothing. -/
def isTaken (s : Socket) : Bool :=
  s.block.isSome

end Socket

structure Block where
  id : BlockId
  genus : String
  label : Option String
  properties : Table
  sockets : List Socket
  plug : Option Socket
  next : Option BlockId
  deriving DecidableEq

namespace Block

def ofGenus (genus : String) : Block :=
  ⟨.null, genus, none, .empty, [], none, none⟩

def withProperty (b : Block) (key value : String) : Block :=
  { b with properties := b.properties.insert key value }

def withSocket (b : Block) (s : Socket) : Block :=
  { b with sockets := b.sockets ++ [s] }

/-- Adds empty sockets, named as if they were the first ones. -/
def withEmptySockets (b : Block) (count : Nat) : Block :=
  { b with sockets := b.sockets ++ (List.range count).map fun i => Socket.any (Socket.argName i) }

def property? (b : Block) (key : String) : Option String :=
  b.properties.get? key

def isSet (b : Block) (key : String) : Bool :=
  b.property? key == some "yes"

def socket? (b : Block) (index : Nat) : Option Socket :=
  b.sockets[index]?

def target? (b : Block) (index : Nat) : Option BlockId :=
  (b.socket? index).bind Socket.block

def successor? (b : Block) : Option BlockId :=
  b.next.filter (· ≠ .null)

def compactLabel (b : Block) : String :=
  Text.compact (b.label.getD "")

end Block

end VisualProgram
