import VisualProgram.Block

namespace VisualProgram

structure Connector where
  socket : Socket
  isPlug : Bool
  deriving DecidableEq

def canLink (a b : Connector) : Bool :=
  !a.socket.isTaken && !b.socket.isTaken && a.isPlug != b.isPlug &&
    (a.socket.kind == Socket.anyKind || b.socket.kind == Socket.anyKind)

theorem canLink_comm (a b : Connector) : canLink a b = canLink b a := by
  simp only [canLink, Bool.and_comm (!a.socket.isTaken), Bool.or_comm (a.socket.kind == _),
    bne_comm (a := a.isPlug)]

end VisualProgram
