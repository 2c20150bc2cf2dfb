import TokenTariff.Config
/-!
# Settings of a run

What the command line sets for a run, completed by the configuration file: a switch is on if either
turns it on, and of two texts that of the command line holds.
-/

namespace TokenTariff
set_option autoImplicit false

structure Settings where
  json : Bool
  offline : Bool
  debug : Bool
  pricingFile : Option String
  pricingUrl : Option String
  cachePath : Option String
  refreshHours : Option Nat
  deriving DecidableEq

namespace Settings

/-- Completes the settings by the configuration file. -/
def withConfig (settings : Settings) (config : Config) : Settings where
  json := settings.json || config.json
  offline := settings.offline || config.offline
  debug := settings.debug
  pricingFile := settings.pricingFile
  pricingUrl := settings.pricingUrl.or config.pricingUrl
  cachePath := settings.cachePath.or config.cachePath
  refreshHours := settings.refreshHours.or config.refreshHours

/-- The interval of so many hours, if it is positive and its seconds fit into 64 bits. -/
def interval? (hours : Nat) : Option Duration :=
  if 0 < hours ∧ hours * 3600 < 0x10000000000000000 then some (.ofHours hours) else none

/-- The options of a service for the user with the given home directory, if it is known. -/
def options (settings : Settings) (home : Option String) : Options :=
  let default := Options.default home
  let interval := (settings.refreshHours.bind interval?).getD Options.defaultInterval
  { default with
    remoteUrl := settings.pricingUrl.getD default.remoteUrl
    cachePath := settings.cachePath.or default.cachePath
    cacheTtl := interval
    refreshInterval := interval
    offline := settings.offline }

end Settings

end TokenTariff
