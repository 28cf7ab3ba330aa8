/-
Kinds of values and the types a program declares.

A value has one of six kinds. A declared type is a kind, or a reference to an
integer, boolean or string; the latter are for parameters only. Results of calls
are published under a name that depends on the kind.
-/

namespace LineScript

/-- What sort of value it is. -/
inductive Kind
  | int
  | bool
  | str
  | void
  | func
  | object
  deriving DecidableEq

namespace Kind

/-- The name of the kind. -/
def text : Kind → String
  | int => "int"
  | bool => "bool"
  | str => "string"
  | void => "void"
  | func => "func"
  | object => "object"

/-- The name under which a result of the kind is published. -/
def resultName? : Kind → Option String
  | int => some "resulti"
  | bool => some "resultb"
  | str => some "results"
  | func => some "resultf"
  | object => some "resulto"
  | void => none

/-- All kinds. -/
def all : List Kind := [int, bool, str, void, func, object]

end Kind

/-- A type as a program writes it. -/
inductive DeclaredType
  | int
  | bool
  | str
  | void
  | func
  | object
  | refInt
  | refBool
  | refStr
  deriving DecidableEq

namespace DeclaredType

/-- The type of this name. -/
def ofText? : String → Option DeclaredType
  | "int" => some int
  | "bool" => some bool
  | "string" => some str
  | "void" => some void
  | "func" => some func
  | "object" => some object
  | "refint" => some refInt
  | "refbool" => some refBool
  | "refstring" => some refStr
  | _ => none

/-- The kind of the values of the type. -/
def kind : DeclaredType → Kind
  | int | refInt => .int
  | bool | refBool => .bool
  | str | refStr => .str
  | void => .void
  | func => .func
  | object => .object

/-- The name of the type. -/
def text : DeclaredType → String
  | refInt => "refint"
  | refBool => "refbool"
  | refStr => "refstring"
  | type => type.kind.text

/-- A parameter of the type shares the variable of its argument. -/
def isReference : DeclaredType → Bool
  | refInt | refBool | refStr | object => true
  | _ => false

/-- The type may be that of a variable or of a result. -/
def isStorable : DeclaredType → Bool
  | refInt | refBool | refStr => false
  | _ => true

/-- The storable type of this name. -/
def storable? (name : String) : Option DeclaredType := (ofText? name).filter isStorable

/-- The type of this name that a parameter may have. -/
def parameter? (name : String) : Option DeclaredType := (ofText? name).filter (· ≠ void)

@[simp]
theorem ofText?_text (t : DeclaredType) : ofText? t.text = some t := by
  cases t <;> rfl

end DeclaredType

/-- The type that declares values of the kind. -/
def Kind.type : Kind → DeclaredType
  | .int => .int
  | .bool => .bool
  | .str => .str
  | .void => .void
  | .func => .func
  | .object => .object

@[simp]
theorem Kind.kind_type (k : Kind) : k.type.kind = k := by
  cases k <;> rfl

end LineScript
