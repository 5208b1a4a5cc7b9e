import AgenticRag.Python.Uuid

/-! The runtime values that untyped boundaries hand over, and binary64 floats by
their bits. -/
namespace AgenticRag.Python

structure Float64 where
  bits : BitVec 64
  deriving DecidableEq

/-- `math.isfinite`: the exponent field is not all ones. -/
def Float64.isFinite (x : Float64) : Bool := x.bits.extractLsb' 52 11 != 0x7FF

/-- An arbitrary object, as far as `type` and `isinstance` tests can tell it apart. -/
inductive Object where
  | none
  | bool (b : Bool)
  | int (n : Int)
  | float (x : Float64)
  | str (s : Str)
  | list (items : List Object)
  | tuple (items : List Object)
  | other (typeName : String)

/-- The items of a value for which `isinstance(value, (list, tuple))` holds. -/
def Object.sequence? : Object → Option (List Object)
  | .list items => some items
  | .tuple items => some items
  | _ => Option.none

end AgenticRag.Python
