import VisualProgram.Compile.Pass

/-!
Scripts and programs. A script is the text of one root. A program is the text of all roots in one
pass: first the imports, then the prelude, then a section for each root with anything to show.
-/

namespace VisualProgram

open Text

def importLines (modules : List String) : String :=
  closeLines (modules.map ("import " ++ ·))

structure Script where
  source : String
  modules : List String
  diagnostics : List Diagnostic
  deriving DecidableEq

namespace Script

def compile (c : Context) (root : BlockId) : Script :=
  let r := c.compileId root
  ⟨r.value, r.log.modules, r.log.diagnostics⟩

def text (s : Script) : String :=
  importLines s.modules ++ s.source

def isClean (s : Script) : Bool :=
  s.diagnostics.isEmpty

def check (s : Script) : Except Diagnostic Script :=
  match s.diagnostics with
  | d :: _ => .error d
  | [] => .ok s

end Script

structure Roots where
  ordinary : List BlockId
  deferred : List BlockId
  deriving DecidableEq

namespace Roots

def size (r : Roots) : Nat :=
  r.ordinary.length + r.deferred.length

def inOutputOrder (r : Roots) : List BlockId :=
  r.ordinary ++ r.deferred

def isRoot (o : Options) (g : BlockGraph) (b : Block) : Bool :=
  b.isSet o.rootProperty && b.id ∉ g.successors

def select (o : Options) (g : BlockGraph) : Roots :=
  let roots := g.blocks.filter (isRoot o g)
  { ordinary := (roots.filter fun b => !b.isSet o.topLevelProperty).map Block.id
    deferred := (roots.filter fun b => b.isSet o.topLevelProperty).map Block.id }

end Roots

structure Figures where
  inputBlocks : Nat
  roots : Nat
  deferredRoots : Nat
  blocksCompiled : Nat
  diagnostics : Nat
  generatedBytes : Nat
  deriving DecidableEq

structure Program where
  source : String
  modules : List String
  diagnostics : List Diagnostic
  figures : Figures
  deriving DecidableEq

namespace Program

def sections (texts : List String) : List String :=
  (texts.map dropFeeds).filter fun s => !blankText s

/-- Imports, prelude and sections, with an empty line between any two of the three kinds and
between two sections. The prelude follows the imports directly. -/
def assemble (o : Options) (modules : List String) (texts : List String) : String :=
  let lead := importLines modules ++ closeLines o.prelude
  match sections texts with
  | [] => lead
  | shown => lead ++ (if lead = "" then "" else "\n") ++ String.intercalate "\n\n" shown ++ "\n"

def ofRoots (c : Context) (roots : Roots) : Program :=
  let r := Logged.traverse c.compileId roots.inOutputOrder
  let source := assemble c.options r.log.modules r.value
  { source
    modules := r.log.modules
    diagnostics := r.log.diagnostics
    figures :=
      { inputBlocks := 0
        roots := roots.size
        deferredRoots := roots.deferred.length
        blocksCompiled := r.log.applied.length
        diagnostics := r.log.diagnostics.length
        generatedBytes := source.utf8ByteSize } }

def compile (registry : Registry) (o : Options) (g : BlockGraph) : Program :=
  let p := ofRoots ⟨.ofGraph g, registry, o⟩ (Roots.select o g)
  { p with figures := { p.figures with inputBlocks := g.size } }

end Program

end VisualProgram
