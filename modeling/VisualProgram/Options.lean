import VisualProgram.Json.Record

namespace VisualProgram

structure Options where
  indent : String
  prelude : List String
  rootProperty : String
  topLevelProperty : String
  /-- The most blocks of one chain; zero for any number. -/
  maxChainLength : Nat
  deriving DecidableEq

namespace Options

def standard : Options where
  indent := "\t"
  prelude := ["setThrowException(False)"]
  rootProperty := "is-root-block"
  topLevelProperty := "yields-top-level-code"
  maxChainLength := 10000

def bare : Options :=
  { standard with prelude := [] }

def withSpaceIndent (width : Nat) : Options :=
  { standard with indent := String.ofList (List.replicate width ' ') }

def chainIsFull (o : Options) (length : Nat) : Bool :=
  0 < o.maxChainLength && o.maxChainLength ≤ length

structure Draft where
  indent : Option String
  prelude : Option (List String)
  rootProperty : Option String
  topLevelProperty : Option String
  maxChainLength : Option Nat

def Draft.finish (d : Draft) : Options where
  indent := d.indent.getD standard.indent
  prelude := d.prelude.getD standard.prelude
  rootProperty := d.rootProperty.getD standard.rootProperty
  topLevelProperty := d.topLevelProperty.getD standard.topLevelProperty
  maxChainLength := d.maxChainLength.getD standard.maxChainLength

open Json

def record : Record Draft Options where
  title := "struct CompilerOptions"
  fields :=
    [.of "indent" Draft.indent (fun d x => { d with indent := some x }) .string,
      .of "prelude" Draft.prelude (fun d x => { d with prelude := some x }) (.list .string),
      .of "root_property" Draft.rootProperty (fun d x => { d with rootProperty := some x }) .string,
      .of "top_level_property" Draft.topLevelProperty
        (fun d x => { d with topLevelProperty := some x }) .string,
      .of "max_chain_length" Draft.maxChainLength (fun d x => { d with maxChainLength := some x })
        (.natural "usize")]
  draft := ⟨none, none, none, none, none⟩
  ofObject d := .ok d.finish
  ofArray d := .ok d.finish

def ofText (text : String) : Except Fault Options :=
  (Reader.record record).read text

end Options

end VisualProgram
