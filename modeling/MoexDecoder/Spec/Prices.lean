import MoexDecoder.Lib.Doubles
import MoexDecoder.Lib.Fields
import MoexDecoder.Spec.Output

/-!
# The price columns of the CSV

What a stream with default settings prints of a price, and what the rows of two orders
have to show for their prices to be told apart.

`streamBinary` is what the program prints: the price as a `double`, divided by
`SIMBA_MOEX_EXPONENT` with the rounding of binary64, and six digits of that. `streamDouble`
idealises it: the quotient is exact, and rounded once.
-/

namespace MoexDecoder

open Fields

/-! ## With exact quotients -/

/-- `operator<<(double)` on a stream with default settings, with no rounding before it: six
significant digits of the mantissa over `SIMBA_MOEX_EXPONENT`, the exact quotient. -/
def streamDouble : Double → String
  | none => "nan"
  | some price => Decimal.printG 6 5 price.toInt

/-- The streams of `to_csv_string` have default settings, and exact quotients. -/
def csvPrinting (book : Double → String) : Printing := ⟨streamDouble, book⟩

def OrderUpdate.prices (u : OrderUpdate) : List Int64 := [u.orderPrice]

def OrderExecution.prices (x : OrderExecution) : List Int64 := [x.orderPrice, x.tradePrice]

/-- The fields that the prices of an update are printed in. -/
def OrderUpdate.priceColumns (row : String) : List String := [field row 1]

def OrderExecution.priceColumns (row : String) : List String := [field row 1, field row 3]

/-- The null marker stands for the missing prices, and for no others. -/
def MarksNulls (columns : List String) (prices : List Int64) : Prop :=
  List.Forall₂ (fun s price => s = "nan" ↔ isNullPrice price = true) columns prices

/-- **The price columns of two rows are faithful** to the prices of their orders. -/
structure PricesFaithful (columns columns' : List String) (prices prices' : List Int64) : Prop where
  apart : prices ≠ prices' → columns ≠ columns'
  nulls : MarksNulls columns prices
  nulls' : MarksNulls columns' prices'

/-! ## Prices that look alike -/

/-- One number of six significant digits is the nearest to both. -/
def SameDigits (price price' : Int64) : Prop :=
  ∃ r, Decimal.Nearest 6 price.toInt r ∧ Decimal.Nearest 6 price'.toInt r

instance (price price' : Int64) : Decidable (SameDigits price price') :=
  decidable_of_iff (Decimal.roundInt 6 price.toInt = Decimal.roundInt 6 price'.toInt)
    ((Decimal.printG_eq_iff_roundInt (by decide) 5 _ _).symm.trans (Decimal.printG_eq_iff (by decide) 5 _ _))

/-- Both order prices are missing, or neither is and they have the same digits. -/
def Alike (price price' : Int64) : Prop :=
  isNullPrice price = isNullPrice price' ∧ (isNullPrice price = false → SameDigits price price')

instance (price price' : Int64) : Decidable (Alike price price') := inferInstanceAs (Decidable (_ ∧ (_ → _)))

/-! ## With the rounding of binary64 -/

def SIMBA_MOEX_EXPONENT : Float.Model := .ofNat 100000

/-- The quotient that `to_normalized_price` computes. -/
def binaryPrice (price : Int64) : Float.Model := .ofInt64 price / SIMBA_MOEX_EXPONENT

/-- `operator<<(double)` on a stream with default settings: six significant digits of the
`double`. -/
def streamBinary : Double → String
  | none => "nan"
  | some price => Doubles.text 6 (binaryPrice price)

/-- The streams of `to_csv_string` as they are. -/
def binaryPrinting (book : Double → String) : Printing := ⟨streamBinary, book⟩

/-- Both are missing, or one number of six digits is the nearest to both. -/
def LooksAlike : Double → Double → Prop
  | none, none => True
  | some price, some price' => Doubles.Same 6 (binaryPrice price).unpack (binaryPrice price').unpack
  | _, _ => False

end MoexDecoder
