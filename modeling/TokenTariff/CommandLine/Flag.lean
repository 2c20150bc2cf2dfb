/-!
# Flags of the command line

A flag has a long name, and some have a letter. Some flags are followed by a value, which is a text
or a number of tokens; the others are switches, or ask for help or the version.

* `Flag.named?` and `Flag.lettered?` find a flag;
* `Flag.isAllowed` says where it may stand.
-/

namespace TokenTariff.CommandLine
set_option autoImplicit false

inductive Switch where
  | json
  | offline
  | debug
  deriving DecidableEq

inductive TextFlag where
  | pricingFile
  | pricingUrl
  deriving DecidableEq

inductive CountFlag where
  | input
  | output
  | cacheWrite
  | cacheRead
  | fiveMinuteWrite
  | oneHourWrite
  deriving DecidableEq

inductive ValueFlag where
  | text (flag : TextFlag)
  | count (flag : CountFlag)
  deriving DecidableEq

inductive Flag where
  | help
  | version
  | switch (s : Switch)
  | value (flag : ValueFlag)
  deriving DecidableEq

/-- The part of the command line in which a flag stands: before the name of the command, or after
that of one of the three commands. -/
inductive Part where
  | front
  | cost
  | resolve
  | refresh
  deriving DecidableEq

/-- Whether the name of a model belongs to a part. -/
def Part.wantsModel : Part → Bool
  | cost => true
  | resolve => true
  | front => false
  | refresh => false

namespace Flag

def names : List (String × Flag) :=
  [("help", .help), ("version", .version), ("json", .switch .json), ("offline", .switch .offline),
    ("debug", .switch .debug), ("pricing-file", .value (.text .pricingFile)),
    ("pricing-url", .value (.text .pricingUrl)), ("input", .value (.count .input)),
    ("output", .value (.count .output)), ("cache-create", .value (.count .cacheWrite)),
    ("cache-read", .value (.count .cacheRead)), ("cache-5m", .value (.count .fiveMinuteWrite)),
    ("cache-1h", .value (.count .oneHourWrite))]

def letters : List (Char × Flag) :=
  [('h', .help), ('V', .version), ('j', .switch .json), ('O', .switch .offline),
    ('i', .value (.count .input)), ('o', .value (.count .output))]

/-- Whether a flag may stand in a part of the command line. -/
def isAllowed (part : Part) : Flag → Bool
  | version => part = .front
  | value (.count _) => part = .cost
  | _ => true

def named? (part : Part) (name : String) : Option Flag :=
  (names.lookup name).filter (isAllowed part)

def lettered? (part : Part) (letter : Char) : Option Flag :=
  (letters.lookup letter).filter (isAllowed part)

end Flag

end TokenTariff.CommandLine
