import TokenTariff.Decimal.Fixed
/-!
# Dollar amounts

Costs are shown with six places, since a request often costs a fraction of a cent; rates are shown
for a million tokens, with four places.
-/

namespace TokenTariff.Report
set_option autoImplicit false

/-- A cost in dollars. -/
def costText (cost : Float) : String :=
  if cost.isNaN then "N/A" else "$" ++ Decimal.fixedText 6 cost

/-- A rate in dollars for a million tokens; a rate of zero is not shown. -/
def rateText (perToken : Float) : String :=
  if perToken == 0 then "-" else "$" ++ Decimal.fixedText 4 (perToken * 1000000) ++ "/M"

end TokenTariff.Report
