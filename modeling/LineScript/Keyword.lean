/-
The words of the language.

A statement begins with a `Keyword`; a call of a `Builtin` needs no definition.
The reserved words are these, the type names and a few more, and none of them
may name a variable or a parameter. `func` is both a keyword and a type name.
-/

namespace LineScript

/-- The word that begins a statement. -/
inductive Keyword
  | func
  | endFunc
  | lambda
  | endLambda
  | var
  | assign
  | call
  | ret
  | branch
  | otherwise
  | endBranch
  | loop
  | endLoop
  deriving DecidableEq

/-- How the keyword is written. -/
def Keyword.text : Keyword → String
  | .func => "func"
  | .endFunc => "endfunc"
  | .lambda => "lambda"
  | .endLambda => "endlambda"
  | .var => "var"
  | .assign => "assign"
  | .call => "funccall"
  | .ret => "return"
  | .branch => "if"
  | .otherwise => "else"
  | .endBranch => "endif"
  | .loop => "while"
  | .endLoop => "endwhile"

/-- The keyword written this way. -/
def Keyword.ofText? : String → Option Keyword
  | "func" => some .func
  | "endfunc" => some .endFunc
  | "lambda" => some .lambda
  | "endlambda" => some .endLambda
  | "var" => some .var
  | "assign" => some .assign
  | "funccall" => some .call
  | "return" => some .ret
  | "if" => some .branch
  | "else" => some .otherwise
  | "endif" => some .endBranch
  | "while" => some .loop
  | "endwhile" => some .endLoop
  | _ => none

@[simp]
theorem Keyword.ofText?_text (k : Keyword) : ofText? k.text = some k := by
  cases k <;> rfl

/-- A function that every program may call. -/
inductive Builtin
  | print
  | input
  | strtoint
  deriving DecidableEq

/-- The name the built-in function is called by. -/
def Builtin.text : Builtin → String
  | .print => "print"
  | .input => "input"
  | .strtoint => "strtoint"

/-- The built-in function of this name. -/
def Builtin.ofText? : String → Option Builtin
  | "print" => some .print
  | "input" => some .input
  | "strtoint" => some .strtoint
  | _ => none

@[simp]
theorem Builtin.ofText?_text (b : Builtin) : ofText? b.text = some b := by
  cases b <;> rfl

/-- The name a method sees its object under. -/
def receiverName : String := "this"

/-- The function a program starts in unless told otherwise. -/
def defaultEntry : String := "main"

/-- The words that name no variable and no parameter. -/
def reservedWords : List String :=
  ["func", "endfunc", "lambda", "endlambda", "var", "assign", "funccall", "return", "if", "else",
   "endif", "while", "endwhile", "int", "bool", "string", "void", "object", "refint", "refbool",
   "refstring", "true", "false", "print", "input", "strtoint", "main", "this"]

/-- The word is reserved. -/
def isReserved (word : String) : Bool := reservedWords.contains word

end LineScript
