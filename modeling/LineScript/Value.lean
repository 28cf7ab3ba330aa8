/-
Values of a running program.

An object value is the identity of an object; the object itself lives in the
heap. A function value is the identity of a signature, or nothing for a function
variable that was never assigned. Two values are equal when they are the same
value, so objects are compared by identity.
-/
import LineScript.Kind
import LineScript.Text.Decimal

namespace LineScript

/-- The identity of an object. -/
structure ObjId where
  index : Nat
  deriving DecidableEq

/-- The identity of a function or lambda: its place in the table of signatures. -/
structure FuncId where
  index : Nat
  deriving DecidableEq

/-- A value. -/
inductive Value
  | int (n : Int64)
  | bool (b : Bool)
  | str (text : String)
  | void
  | func (id : Option FuncId)
  | object (id : ObjId)
  deriving DecidableEq

namespace Value

instance : Inhabited Value := ⟨void⟩

/-- The kind of a value. -/
def kind : Value → Kind
  | int _ => .int
  | bool _ => .bool
  | str _ => .str
  | void => .void
  | func _ => .func
  | object _ => .object

/-- The text a value is printed as. -/
def display : Value → String
  | int n => Text.decimal n
  | bool true => "true"
  | bool false => "false"
  | str text => text
  | void => "void"
  | func _ => "<func>"
  | object _ => "<object>"

/-- The integer, if the value is one. -/
def int? : Value → Option Int64
  | int n => some n
  | _ => none

/-- The truth value, if the value is one. -/
def bool? : Value → Option Bool
  | bool b => some b
  | _ => none

/-- The object, if the value is one. -/
def object? : Value → Option ObjId
  | object id => some id
  | _ => none

/-- The value with another object in place of the object it is. -/
def mapObject (f : ObjId → ObjId) : Value → Value
  | object id => object (f id)
  | v => v

end Value
end LineScript
