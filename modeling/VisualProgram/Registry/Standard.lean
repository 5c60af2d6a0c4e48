import VisualProgram.Registry

namespace VisualProgram

namespace Rule

def plain (text : String) : Rule :=
  constant text none

def action (name : String) (sockets : List Nat) : Rule :=
  call name "\"\"" sockets none

def mathCall (name missing : String) (sockets : List Nat) : Rule :=
  call ("math." ++ name) missing sockets (some "math")

def assignment : Rule :=
  operator "=" "None" [0, 1]

def test (token : String) : Rule :=
  operator token "True" [0, 1]

end Rule

namespace Registry

open Rule

def literalRules : List (String × Rule) :=
  [("string", handler .literal),
    ("number", handler .name),
    ("screenshot", handler .screenshot),
    ("true", plain "True"),
    ("false", plain "False"),
    ("pi", constant "math.pi" (some "math")),
    ("e", constant "math.e" (some "math"))]

def operatorRules : List (String × Rule) :=
  [("and", test "and"),
    ("or", test "or"),
    ("string-equals", test "=="),
    ("number-equals", test "=="),
    ("string-not-equals", test "!="),
    ("number-not-equals", test "!="),
    ("less-than", test "<"),
    ("greater-than", test ">"),
    ("less-than-or-equal-to", test "<="),
    ("greater-than-or-equal-to", test ">="),
    ("not", operator "not" "True" [0]),
    ("appendString", operator "+" "" [0, 1]),
    ("sum", operator "+" "0" [0, 1]),
    ("difference", operator "-" "0" [0, 1]),
    ("product", operator "*" "1" [0, 1]),
    ("quotient", operator "/" "1" [0, 1]),
    ("remainder", operator "%" "1" [0, 1])]

def mathRules : List (String × Rule) :=
  [("sqrt", mathCall "sqrt" "0" [0]),
    ("sin", mathCall "sin" "0" [0]),
    ("cos", mathCall "cos" "0" [0]),
    ("tan", mathCall "tan" "0" [0]),
    ("asin", mathCall "asin" "0" [0]),
    ("acos", mathCall "acos" "0" [0]),
    ("log", mathCall "log10" "1" [0]),
    ("ln", mathCall "log" "1" [0]),
    ("power", mathCall "pow" "1" [0, 1]),
    ("atan", mathCall "atan2" "0" [1, 0]),
    ("random", call "random.randint" "0" [0, 1] (some "random")),
    ("round", call "round" "0" [0] none),
    ("int", call "int" "0" [0] none),
    ("abs", call "abs" "0" [0] none),
    ("min", call "min" "0" [0, 1] none),
    ("max", call "max" "0" [0, 1] none),
    ("number-to-string", action "str" [0])]

def variableRules : List (String × Rule) :=
  [("variable", handler .name),
    ("argument", handler .name),
    ("getScreenshot", handler .getter),
    ("getString", handler .getter),
    ("getNumber", handler .getter),
    ("getBoolean", handler .getter),
    ("getVariable", handler .getter),
    ("getArgument", handler .getter),
    ("setScreenshot", assignment),
    ("setString", assignment),
    ("setNumber", assignment),
    ("setBoolean", assignment),
    ("setVariable", assignment)]

def keyRules : List (String × Rule) :=
  [("controlKey", plain "KeyModifier.CTRL"),
    ("shiftKey", plain "KeyModifier.SHIFT"),
    ("altKey", plain "KeyModifier.ALT"),
    ("metaKey", plain "KeyModifier.META"),
    ("commandKey", plain "KeyModifier.CMD"),
    ("windowsKey", plain "KeyModifier.WIN"),
    ("enterKey", plain "Key.ENTER"),
    ("tabKey", plain "Key.TAB"),
    ("escapeKey", plain "Key.ESCAPE"),
    ("backspaceKey", plain "Key.BACKSPACE"),
    ("deleteKey", plain "Key.DELETE"),
    ("insertKey", plain "Key.INSERT"),
    ("spaceKey", plain "Key.SPACE"),
    ("homeKey", plain "Key.HOME"),
    ("endKey", plain "Key.END"),
    ("leftKey", plain "Key.LEFT"),
    ("rightKey", plain "Key.RIGHT"),
    ("downKey", plain "Key.DOWN"),
    ("upKey", plain "Key.UP"),
    ("pageUpKey", plain "Key.PAGE_UP"),
    ("pageDownKey", plain "Key.PAGE_DOWN"),
    ("functionKey", handler .functionKey)]

def actionRules : List (String × Rule) :=
  [("wait", action "wait" [0]),
    ("click", action "click" [0]),
    ("doubleClick", action "doubleClick" [0]),
    ("rightClick", action "rightClick" [0]),
    ("hover", action "hover" [0]),
    ("dragDrop", action "dragDrop" [0, 1]),
    ("type", action "type" [0]),
    ("typeIn", action "type" [0, 1]),
    ("typeModifiers", action "type" [0, 1]),
    ("paste", action "paste" [0]),
    ("pasteIn", action "paste" [0, 1]),
    ("exists", action "exists" [0]),
    ("observe", action "observe" [0, 1]),
    ("print", action "print" [0]),
    ("assert", action "assert" [0]),
    ("openApp", action "openApp" [0]),
    ("switchApp", action "switchApp" [0]),
    ("closeApp", action "closeApp" [0]),
    ("runCommand", action "run" [0]),
    ("popup", action "popup" [0, 1]),
    ("input", action "input" [0, 1])]

def statementRules : List (String × Rule) :=
  [("runOnce", handler .sequence),
    ("if", handler .conditional),
    ("ifelse", handler .alternative),
    ("repeat", handler .repetition),
    ("while", handler .loop),
    ("break", plain "break"),
    ("continue", plain "continue"),
    ("on-appear-procedure", handler (.event .appear)),
    ("on-vanish-procedure", handler (.event .vanish)),
    ("on-change-procedure", handler (.event .change)),
    ("comment", handler .comment)]

def functionRules : List (String × Rule) :=
  [("callFunction", handler .call),
    ("callFunctionImport", handler .importedCall),
    ("defineFunction", handler .definition),
    ("return", operator "return" "None" [0]),
    ("pythonExpression", handler .inlineCode),
    ("pythonStatement", handler .inlineCode)]

def standard : Registry :=
  ⟨literalRules ++ operatorRules ++ mathRules ++ variableRules ++ keyRules ++ actionRules ++
    statementRules ++ functionRules⟩

end Registry

end VisualProgram
