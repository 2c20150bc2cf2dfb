import Std.Time.DateTime.Timestamp
import TokenTariff.Program
/-!
# The command

The program as a command: it looks at the environment, the clock and the files that the run can
read, runs the program on them, and prints what it gives. It has no way to reach a server, so every
request fails, and no run changes a file.
-/

namespace TokenTariff.Main
set_option autoImplicit false

/-- Whether the number of a failure says that there is a directory; some calls negate it. -/
def isOfDirectory (code : UInt32) : Bool :=
  code == 21 || code == 0 - 21

/-- Puts on the disk what there is at a path. -/
def observe (disk : Disk) (path : String) : IO Disk := do
  let (disk, _) :=
    match ← (IO.FS.readBinFile path).toBaseIO with
    | .ok content => disk.writeWithin path content.toList
    | .error (.inappropriateType _ code _) =>
      if isOfDirectory code then disk.makeDirectories path else (disk, .ok ())
    | .error _ => (disk, .ok ())
  return disk

/-- Puts on the disk what there is at a path and around it. -/
def observeLineage (disk : Disk) (path : String) : IO Disk :=
  (Path.lineage path).reverse.foldlM observe disk

/-- The directory of configuration files that the environment names, if the name is a full path. -/
def configDirectory : IO (Option String) := do
  return (← IO.getEnv "XDG_CONFIG_HOME").filter Path.isAbsolute

/-- The surroundings of this run. -/
def world : IO World := do
  let now ← Std.Time.Timestamp.now
  return {
    home := ⟨(← IO.getEnv "HOME").filter (· ≠ ""), ← configDirectory⟩
    network := fun _ _ _ => .error (.notFetched "no connection")
    now := .ofTotalNanos now.toNanosecondsSinceUnixEpoch.val }

/-- The files that a command can read once the configuration is known. -/
def filesOf (world : World) (line : CommandLine) : List String :=
  let options := line.settings.options world.home.path
  line.settings.pricingFile.toList ++ options.cachePath.toList

/-- The files that a run can read. -/
def snapshot (world : World) (words : List String) : IO Disk := do
  let here := Path.place [] (← IO.currentDir).toString
  let disk ← (Config.paths world.home).foldlM observeLineage (Disk.empty here)
  match CommandLine.parse words with
  | .error _ => return disk
  | .ok line => (filesOf world (Program.configured world line disk)).foldlM observeLineage disk

/-- Runs the program and prints what it gives. -/
def run (words : List String) : IO UInt32 := do
  let world ← world
  let (outcome, _) := Program.execute world words (← snapshot world words)
  IO.print outcome.output
  IO.eprint outcome.complaint
  return outcome.exitCode.toUInt32

end TokenTariff.Main

def main (words : List String) : IO UInt32 :=
  TokenTariff.Main.run words
