import Lipi.Decimal.Binary64

/-!
# TOML values

The values that a TOML document can give to its keys.
-/

namespace Lipi.Toml

/-- A floating-point number. -/
inductive FloatValue where
  | finite (negative : Bool) (magnitude : Binary64)
  | infinite (negative : Bool)
  | nan
  deriving DecidableEq, Repr

def FloatValue.render : FloatValue → String
  | finite negative magnitude =>
    (if negative then "-" else "") ++ String.ofList magnitude.render
  | infinite negative => if negative then "-inf" else "inf"
  | nan => "NaN"

/-- A value. Dates and times are kept as their text. -/
inductive Value where
  | text (text : String)
  | integer (value : Int)
  | float (value : FloatValue)
  | boolean (value : Bool)
  | moment (text : String)
  | array (items : List Value)
  | table (entries : List (String × Value))
  deriving Repr

end Lipi.Toml
