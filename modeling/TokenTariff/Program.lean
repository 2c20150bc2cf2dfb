import TokenTariff.CommandLine.Command
import TokenTariff.Report.Answers
/-!
# The program

One run of the program: it finds a price list, takes one command, and prints the answer. Where the
prices come from is settled before the command is taken: from a file that is named on the command
line, or like a service that starts. For a refresh it starts without the server, which the refresh
itself asks. A build that looks for sums out of range breaks off at the one that a command line can
ask for; any other build goes on with its low 64 bits.

* `Program.run` takes a command and gives how the run ends;
* `Program.execute` takes the words of a command line and gives the exit code too.
-/

namespace TokenTariff
set_option autoImplicit false

/-- Why a command has no answer. -/
inductive RunError where
  | pricingFile (path : String) (cause : FileError)
  | pricing (cause : PricingError)

def RunError.message : RunError → String
  | pricingFile path cause => "Failed to read pricing file " ++ path ++ ": " ++ cause.message
  | pricing cause => cause.message

/-- How a run ends. -/
inductive Ending where
  | printed (output : String)
  | failed (cause : RunError)
  /-- At a sum that is out of range. -/
  | brokenOff

/-- What surrounds a run, apart from the disk. -/
structure World where
  home : Config.Home
  network : Network
  now : Instant
  /-- Whether the build looks for sums out of range; one that is meant for use does not. -/
  checksSums : Bool := false

namespace Program

/-- The service of a price list that is named on the command line. -/
def serviceOfFile (path : String) (disk : Disk) : Except RunError Service :=
  match disk.read path with
  | .error e => .error (.pricingFile path e)
  | .ok document => (Service.ofDocument document).mapError .pricing

/-- The service that answers a command, and the disk after its start. -/
def service (world : World) (line : CommandLine) (disk : Disk) : Except RunError Service × Disk :=
  match line.settings.pricingFile with
  | some path => (serviceOfFile path disk, disk)
  | none =>
    let options := line.settings.options world.home.path
    let (service, disk) :=
      match line.command with
      | .refresh => Service.loadLocal options world.network disk world.now
      | _ => Service.load options world.network disk world.now
    (.ok service, disk)

/-- What is printed of the prices of a service for a usage of a model. -/
def costAnswer (line : CommandLine) (service : Service) (model : String) (usage : Usage) : String :=
  let cost := service.cost model usage
  if line.settings.json then Report.costJson model usage cost ++ "\n"
  else Report.costTable model usage cost

/-- What a service makes of a command, and the disk after it. -/
def answer (world : World) (line : CommandLine) (service : Service) (disk : Disk) : Ending × Disk :=
  let json := line.settings.json
  match line.command with
  | .cost model counts =>
    if world.checksSums && counts.overflows then (.brokenOff, disk)
    else (.printed (costAnswer line service model counts.usage), disk)
  | .resolve model =>
    let found := service.table.resolve model
    (.printed (if json then Report.resolutionJson model found ++ "\n"
      else Report.resolutionText model found), disk)
  | .refresh =>
    match service.refresh disk world.now with
    | (.error e, _, disk) => (.failed (.pricing e), disk)
    | (.ok models, _, disk) =>
      let text := if json then Report.refreshJson models ++ "\n" else Report.refreshText models
      (.printed text, disk)

/-- Takes a command. It gives how the run ends and the disk after it. -/
def run (world : World) (line : CommandLine) (disk : Disk) : Ending × Disk :=
  match service world line disk with
  | (.error e, disk) => (.failed e, disk)
  | (.ok service, disk) => answer world line service disk

/-- The command line, completed by the configuration of the user. -/
def configured (world : World) (line : CommandLine) (disk : Disk) : CommandLine :=
  { line with settings := line.settings.withConfig (Config.load disk world.home) }

/-! ## From the words to the exit code -/

/-- What a run leaves behind, apart from the disk. -/
structure Outcome where
  exitCode : Nat
  output : String
  complaint : String

def versionText : String :=
  Options.programName ++ " 0.1.0\n"

def helpText : String :=
  "Cost breakdowns for LLM API usage from the LiteLLM pricing feed\n\n" ++
    "Usage: " ++ Options.programName ++ " [OPTIONS] <COMMAND>\n\n" ++
    "Commands:\n" ++
    "  cost     Price a single request\n" ++
    "  resolve  Show which pricing entry a model name resolves to\n" ++
    "  refresh  Fetch the latest pricing feed and update the local cache\n"

/-- What is said about arguments that are no command line. -/
def argumentText : CommandLine.ArgumentError → String
  | .helpAsked => helpText
  | .versionAsked => versionText
  | .nothingGiven => helpText
  | .missingCommand => "error: a subcommand is required\n"
  | .unknownCommand => "error: unrecognized subcommand\n"
  | .missingModel => "error: the model is missing\n"
  | .unknownArgument => "error: unexpected argument\n"
  | .givenTwice => "error: an argument is given twice\n"
  | .missingValue => "error: a value is missing\n"
  | .notACount => "error: a value is not a number of tokens\n"
  | .unwantedValue => "error: a switch takes no value\n"

/-- The outcome for arguments that are no command line. -/
def argumentOutcome (e : CommandLine.ArgumentError) : Outcome :=
  if e = .helpAsked ∨ e = .versionAsked then ⟨0, argumentText e, ""⟩ else ⟨2, "", argumentText e⟩

/-- The outcome of a run. Of one that breaks off, only the reason is said here, not the place. -/
def outcome : Ending → Outcome
  | .printed output => ⟨0, output, ""⟩
  | .failed e => ⟨1, "", e.message ++ "\n"⟩
  | .brokenOff => ⟨101, "", "attempt to add with overflow\n"⟩

/-- Runs the program on the words of a command line. -/
def execute (world : World) (words : List String) (disk : Disk) : Outcome × Disk :=
  match CommandLine.parse words with
  | .error e => (argumentOutcome e, disk)
  | .ok line =>
    let (ending, disk) := run world (configured world line disk) disk
    (outcome ending, disk)

end Program

end TokenTariff
