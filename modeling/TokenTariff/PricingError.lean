import TokenTariff.Decimal.Fixed
import TokenTariff.FileTree
import TokenTariff.Json.Error
/-!
# Why there are no prices

The causes for which an origin of price lists gives no table, and the sentence for each of them.
-/

namespace TokenTariff
set_option autoImplicit false

inductive PricingError where
  | cacheMissing (path : String)
  | cacheExpired (ageHours : Float)
  | cacheUnreadable (cause : FileError)
  | cacheMalformed (cause : Json.Error)
  | notFetched (reason : String)
  | refused (status : Nat)
  | notJson (cause : Json.Error)
  | notAPriceList (cause : Json.Error)
  | offline

def PricingError.message : PricingError → String
  | cacheMissing path => "Pricing cache not found at " ++ path
  | cacheExpired ageHours => "Pricing cache expired (" ++ Decimal.fixedText 1 ageHours ++ "h old)"
  | cacheUnreadable cause => "Pricing cache I/O error: " ++ cause.message
  | cacheMalformed cause => "Malformed pricing cache: " ++ cause.message
  | notFetched reason => "Remote pricing request failed: " ++ reason
  | refused status => "Remote pricing server returned status " ++ toString status
  | notJson cause => "Remote pricing data is not valid JSON: " ++ cause.message
  | notAPriceList cause => "Failed to parse pricing data: " ++ cause.message
  | offline => "Remote fetching is disabled in offline mode"

end TokenTariff
