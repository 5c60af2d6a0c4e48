import VisualProgram.Block

namespace VisualProgram

inductive Diagnostic where
  | unsupportedGenus (block : BlockId) (genus : String)
  | malformedReference (block target : BlockId)
  | cyclicStructure (block : BlockId)
  | chainTooLong (block : BlockId) (limit : Nat)
  deriving DecidableEq

def Diagnostic.message : Diagnostic → String
  | .unsupportedGenus block genus =>
    "unsupported block genus '" ++ genus ++ "' (block " ++ block.text ++ ")"
  | .malformedReference block target =>
    "block " ++ block.text ++ " references unusable block id " ++ target.text
  | .cyclicStructure block => "cyclic block structure detected at block " ++ block.text
  | .chainTooLong block limit =>
    "statement sequence exceeds " ++ toString limit ++ " blocks, cut at block " ++ block.text

end VisualProgram
