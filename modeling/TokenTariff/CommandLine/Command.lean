import TokenTariff.CommandLine.Given
import TokenTariff.Settings
import TokenTariff.Tariff.Usage
/-!
# Commands

A command line is the name of a command with flags and a model after it. The flags that belong to
all commands may stand before the name too, and those after it hold then. After two dashes no word
is a flag.

* `CommandLine.parse` reads the words of a command line;
* `TokenCounts.usage` is the usage that the flags of a cost command describe, and
  `TokenCounts.overflows` says whether the sum in it is out of range.
-/

namespace TokenTariff
set_option autoImplicit false

/-! ## Token counts -/

structure TokenCounts where
  input : TokenCount
  output : TokenCount
  cacheWrite : TokenCount
  cacheRead : TokenCount
  fiveMinuteWrite : Option TokenCount
  oneHourWrite : Option TokenCount
  deriving DecidableEq

namespace TokenCounts

/-- The cache writes of which it is given for how long they are kept. -/
def known (counts : TokenCounts) : Option CacheWrites :=
  match counts.fiveMinuteWrite, counts.oneHourWrite with
  | none, none => none
  | fiveMinutes, oneHour => some ⟨fiveMinutes.getD .zero, oneHour.getD .zero⟩

/-- The cache writes of which there is to be the sum, as no number of all of them is given. -/
def summed? (counts : TokenCounts) : Option CacheWrites :=
  if counts.cacheWrite = .zero then counts.known else none

/-- Whether there is to be a sum that is no count. -/
def overflows (counts : TokenCounts) : Bool :=
  counts.summed?.any fun known =>
    !decide (TokenCount.InRange (known.fiveMinutes.val + known.oneHour.val))

/-- The usage of a request with such numbers of tokens. Where no number of all cache writes is
given, it is the sum of those that are known. -/
def usage (counts : TokenCounts) : Usage where
  input := counts.input
  output := counts.output
  cacheWrite :=
    match counts.summed? with
    | some known => known.fiveMinutes.wrappingAdd known.oneHour
    | none => counts.cacheWrite
  cacheRead := counts.cacheRead
  known := counts.known

end TokenCounts

inductive Command where
  | cost (model : String) (counts : TokenCounts)
  | resolve (model : String)
  | refresh
  deriving DecidableEq

/-- A command with the settings that the command line gives. -/
structure CommandLine where
  command : Command
  settings : Settings
  deriving DecidableEq

namespace CommandLine

/-! ## From the findings -/

def Given.tokenCounts (given : Given) : TokenCounts :=
  let count (flag : CountFlag) : TokenCount := (given.counts.lookup flag).getD .zero
  { input := count .input
    output := count .output
    cacheWrite := count .cacheWrite
    cacheRead := count .cacheRead
    fiveMinuteWrite := given.counts.lookup .fiveMinuteWrite
    oneHourWrite := given.counts.lookup .oneHourWrite }

/-- The settings among the findings before and after the name of the command. -/
def settingsOf (front after : Given) : Settings :=
  let has (s : Switch) : Bool := s ∈ front.switches || s ∈ after.switches
  let text (flag : TextFlag) : Option String :=
    (after.texts.lookup flag).or (front.texts.lookup flag)
  { json := has .json
    offline := has .offline
    debug := has .debug
    pricingFile := text .pricingFile
    pricingUrl := text .pricingUrl
    cachePath := none
    refreshHours := none }

/-- The command that the findings after its name make. -/
def commandOf (part : Part) (given : Given) : Except ArgumentError Command :=
  match part, given.model with
  | .cost, some model => .ok (.cost model given.tokenCounts)
  | .resolve, some model => .ok (.resolve model)
  | .refresh, _ => .ok .refresh
  | _, _ => .error .missingModel

/-! ## Words -/

def commands : List (String × Part) :=
  [("cost", .cost), ("resolve", .resolve), ("refresh", .refresh)]

/-- What can stand in place of a command to ask for help. -/
def helpWord : String := "help"

/-- Takes a word that may be a flag or the value of the flag before it; `none` if it is neither. -/
def takeFlagWord? (part : Part) (word : String) (scan : Scan) :
    Option (Except ArgumentError Scan) :=
  match word.toList, scan.waiting with
  | '-' :: '-' :: chars, _ => some (scan.takeName part chars)
  | '-' :: letter :: letters, _ => some (scan.takeLetters part (letter :: letters))
  | _, some (flag, none) => some (.ok { scan with waiting := some (flag, some word) })
  | _, _ => none

def takeModels (part : Part) (words : List String) (scan : Scan) : Except ArgumentError Scan :=
  words.foldlM (fun scan word => scan.takeModel part word) scan

def takeWords (part : Part) : List String → Scan → Except ArgumentError Scan
  | [], scan => .ok scan
  | word :: words, scan =>
    if word = "--" then takeModels part words scan
    else do
      let scan ← (takeFlagWord? part word scan).getD (scan.takeModel part word)
      takeWords part words scan

/-- The command whose name stands in front of words, with what they give. -/
def parseCommand (part : Part) (words : List String) : Except ArgumentError (Command × Given) := do
  let scan ← takeWords part words .start
  let given ← scan.settle
  let command ← commandOf part given
  .ok (command, given)

/-- What is wrong with a request for help on a command. -/
def helpError (words : List String) : ArgumentError :=
  match words with
  | [] => .helpAsked
  | [word] =>
    if (commands.lookup word).isSome ∨ word = helpWord then .helpAsked else .unknownCommand
  | _ => .unknownCommand

/-- What is wrong with a command line that ends before the name of a command. -/
def endError (scan : Scan) : ArgumentError :=
  match scan.settle with
  | .error e => e
  | .ok given => if given.isEmpty then .nothingGiven else .missingCommand

/-- What is wrong with the words after two dashes before the name of a command. -/
def dashesError (words : List String) (scan : Scan) : ArgumentError :=
  match words with
  | [] => endError scan
  | word :: _ =>
    if (commands.lookup word).isSome ∨ word = helpWord then .unknownArgument else .unknownCommand

/-- Takes the words of a command line after those that `scan` found. -/
def parseFrom : List String → Scan → Except ArgumentError CommandLine
  | [], scan => .error (endError scan)
  | word :: words, scan =>
    if word = "--" then .error (dashesError words scan)
    else
      match takeFlagWord? .front word scan with
      | some taken => do
        let scan ← taken
        parseFrom words scan
      | none =>
        if word = helpWord then .error (helpError words)
        else
          match commands.lookup word with
          | none => .error .unknownCommand
          | some part => do
            let (command, after) ← parseCommand part words
            let front ← scan.settle
            .ok ⟨command, settingsOf front after⟩

def parse (words : List String) : Except ArgumentError CommandLine :=
  parseFrom words .start

end CommandLine

end TokenTariff
