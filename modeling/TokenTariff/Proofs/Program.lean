import TokenTariff.Program
import TokenTariff.Proofs.Service.Runs
import TokenTariff.Proofs.Service.Startup
/-!
# What a run comes to

Whatever becomes of the files and the server, a command that asks for a price or a name is answered,
from the bundled prices if from nothing else. A run fails in three cases only: the price list that
the command line names is not there, or is none, or the prices are to be refreshed and cannot be. A
build that looks for sums out of range breaks off at one of token counts, where it has a price list;
other builds do not.

* `Program.HasPriceList`: whether a path is that of a price list;
* `Program.FailsFor`: the cases in which a run fails, each with its cause;
* `Program.BreaksOff`: the case in which a run neither fails nor has an answer;
* `Program.run_fails_for`: every run that its server leaves without an answer.
-/

namespace TokenTariff
set_option autoImplicit false

/-! ## Refreshes in vain -/

namespace Service

theorem refresh_of_vain {service : Service} {answer : Nat → Except PricingError Bytes}
    {cache : Option CacheFile} {e : PricingError}
    (remote : service.remote = some (.server answer cache))
    (failed : answer service.loads = .error e) (disk : Disk) (now : Instant) :
    (service.refresh disk now).1 = .error e ∧ (service.refresh disk now).2.2 = disk := by
  have load : (Remote.server answer cache).load service.loads disk now = (.error e, disk) := by
    rw [Remote.load, failed]
  rw [refresh_of_some remote, load]
  exact ⟨rfl, rfl⟩

/-- A service that starts without its server has asked it for nothing yet. -/
theorem loadLocal_eq (options : Options) (network : Network) (disk : Disk) (now : Instant) :
    (loadLocal options network disk now).1.remote = options.remote network ∧
      (loadLocal options network disk now).1.loads = 0 ∧
      (loadLocal options network disk now).2 = disk := by
  have started :=
    startsLocally_ofStart { options with offline := true } options rfl network disk now
  exact ⟨rfl, started.2, started.1.disk⟩

theorem refresh_loadLocal_offline {options : Options} (offline : options.offline = true)
    (network : Network) (disk : Disk) (now : Instant) :
    let started := loadLocal options network disk now
    (started.1.refresh started.2 now).1 = .error .offline ∧
      (started.1.refresh started.2 now).2.2 = disk := by
  obtain ⟨remote, -, kept⟩ := loadLocal_eq options network disk now
  rw [Options.remote, if_pos offline] at remote
  simp only [refresh_of_none remote]
  exact ⟨trivial, kept⟩

theorem refresh_loadLocal_vain {options : Options} {network : Network} {e : PricingError}
    (online : options.offline = false)
    (failed : network options.remoteUrl options.fetchLimit 0 = .error e) (disk : Disk)
    (now : Instant) :
    let started := loadLocal options network disk now
    (started.1.refresh started.2 now).1 = .error e ∧
      (started.1.refresh started.2 now).2.2 = disk := by
  obtain ⟨remote, loads, kept⟩ := loadLocal_eq options network disk now
  rw [Options.remote, online] at remote
  have asked : network options.remoteUrl options.fetchLimit
      (loadLocal options network disk now).1.loads = .error e := by
    rw [loads]
    exact failed
  have vain := refresh_of_vain remote asked (loadLocal options network disk now).2 now
  exact ⟨vain.1, vain.2.trans kept⟩

end Service

namespace Program

/-! ## Price lists on the command line -/

/-- Whether there is a price list at a path. -/
def HasPriceList (disk : Disk) (path : String) : Prop :=
  ∃ document table, disk.read path = .ok document ∧ Table.read document = .ok table

/-- Why a run fails whose request, if it makes one, fails with `e`. -/
inductive FailsFor (line : CommandLine) (disk : Disk) (e : PricingError) : RunError → Prop where
  | unreadable {path : String} {cause : FileError} (named : line.settings.pricingFile = some path)
      (failed : disk.read path = .error cause) : FailsFor line disk e (.pricingFile path cause)
  | noPriceList {path : String} {document : Bytes} {cause : Json.Error}
      (named : line.settings.pricingFile = some path) (found : disk.read path = .ok document)
      (failed : Table.read document = .error cause) :
      FailsFor line disk e (.pricing (.notAPriceList cause))
  | noServer (refresh : line.command = .refresh)
      (readable : ∀ path, line.settings.pricingFile = some path → HasPriceList disk path)
      (offline : line.settings.offline = true ∨ line.settings.pricingFile ≠ none) :
      FailsFor line disk e (.pricing .offline)
  | vain (refresh : line.command = .refresh) (unnamed : line.settings.pricingFile = none)
      (online : line.settings.offline = false) : FailsFor line disk e (.pricing e)

/-- Whether a command asks for a sum out of range, in a build that looks for one. -/
def AsksForOverflow (world : World) (line : CommandLine) : Prop :=
  world.checksSums = true ∧
    ∃ model counts, line.command = .cost model counts ∧ counts.overflows = true

/-- Whether a run breaks off: it has its prices when it comes to a sum out of range. -/
def BreaksOff (world : World) (line : CommandLine) (disk : Disk) : Prop :=
  AsksForOverflow world line ∧
    ∀ path, line.settings.pricingFile = some path → HasPriceList disk path

theorem serviceOfFile_of_hasPriceList {disk : Disk} {path : String} (h : HasPriceList disk path) :
    ∃ table, serviceOfFile path disk = .ok (.ofPublished ⟨table, none⟩) := by
  obtain ⟨document, table, found, read⟩ := h
  refine ⟨table, ?_⟩
  rw [serviceOfFile, found]
  simp only [Service.ofDocument, Published.ofFetched, read]
  rfl

theorem serviceOfFile_of_unreadable {disk : Disk} {path : String} {cause : FileError}
    (failed : disk.read path = .error cause) :
    serviceOfFile path disk = .error (.pricingFile path cause) := by
  rw [serviceOfFile, failed]

theorem serviceOfFile_of_unread {disk : Disk} {path : String} {document : Bytes}
    {cause : Json.Error} (found : disk.read path = .ok document)
    (failed : Table.read document = .error cause) :
    serviceOfFile path disk = .error (.pricing (.notAPriceList cause)) := by
  rw [serviceOfFile, found]
  simp only [Service.ofDocument, Published.ofFetched, failed]
  rfl

theorem failsFor_of_not_hasPriceList {line : CommandLine} {disk : Disk} {path : String}
    (named : line.settings.pricingFile = some path) (e : PricingError)
    (h : ¬ HasPriceList disk path) :
    ∃ error, FailsFor line disk e error := by
  cases found : disk.read path with
  | error cause => exact ⟨.pricingFile path cause, .unreadable named found⟩
  | ok document =>
    cases read : Table.read document with
    | error cause => exact ⟨.pricing (.notAPriceList cause), .noPriceList named found read⟩
    | ok table => exact absurd ⟨document, table, found, read⟩ h

/-! ## Answers -/

theorem answer_of_overflow {world : World} {line : CommandLine} (h : AsksForOverflow world line)
    (service : Service) (disk : Disk) :
    answer world line service disk = (.brokenOff, disk) := by
  obtain ⟨checks, model, counts, command, overflows⟩ := h
  unfold answer
  simp only [command, checks, overflows, Bool.and_true, if_true]

theorem answer_of_ne_refresh {world : World} {line : CommandLine} (h : line.command ≠ .refresh)
    (fits : ¬ AsksForOverflow world line) (service : Service) (disk : Disk) :
    ∃ output, answer world line service disk = (.printed output, disk) := by
  unfold answer
  cases command : line.command with
  | cost model counts =>
    have goesOn : (world.checksSums && counts.overflows) = false := by
      rw [← Bool.not_eq_true, Bool.and_eq_true]
      exact fun both => fits ⟨both.1, model, counts, command, both.2⟩
    simp only [goesOn]
    exact ⟨_, rfl⟩
  | resolve model => exact ⟨_, rfl⟩
  | refresh => exact absurd command h

theorem answer_of_refresh {line : CommandLine} (h : line.command = .refresh) {world : World}
    {service : Service} {disk disk' : Disk} {e : PricingError}
    (failed : (service.refresh disk world.now).1 = .error e ∧
      (service.refresh disk world.now).2.2 = disk') :
    answer world line service disk = (.failed (.pricing e), disk') := by
  unfold answer
  rw [h]
  rcases refreshed : service.refresh disk world.now with ⟨result, next, kept⟩
  rw [refreshed] at failed
  obtain ⟨rfl, rfl⟩ := failed
  rfl

/-! ## Runs -/

section
variable {world : World} {line : CommandLine} {disk : Disk} {e : PricingError}

theorem service_of_named {path : String} (named : line.settings.pricingFile = some path) :
    service world line disk = (serviceOfFile path disk, disk) := by
  unfold service
  rw [named]

theorem service_of_refresh (unnamed : line.settings.pricingFile = none)
    (command : line.command = .refresh) :
    let options := line.settings.options world.home.path
    service world line disk =
      (.ok (Service.loadLocal options world.network disk world.now).1,
        (Service.loadLocal options world.network disk world.now).2) := by
  unfold service
  rw [unnamed, command]

theorem exists_failsFor_iff : (∃ error, FailsFor line disk e error) ↔
    (∃ path, line.settings.pricingFile = some path ∧ ¬ HasPriceList disk path) ∨
      line.command = .refresh := by
  constructor
  · rintro ⟨error, fails⟩
    cases fails with
    | unreadable named failed =>
      refine .inl ⟨_, named, ?_⟩
      rintro ⟨document, table, found, -⟩
      cases failed.symm.trans found
    | noPriceList named found failed =>
      refine .inl ⟨_, named, ?_⟩
      rintro ⟨document, table, found', read⟩
      cases found.symm.trans found'
      cases failed.symm.trans read
    | noServer refresh _ _ => exact .inr refresh
    | vain refresh _ _ => exact .inr refresh
  · rintro (⟨path, named, none⟩ | refresh)
    · exact failsFor_of_not_hasPriceList named e none
    -- a refresh without prices fails for them, and else for want of a server or of its answer
    by_cases readable : ∀ path, line.settings.pricingFile = some path → HasPriceList disk path
    · by_cases offline : line.settings.offline = true ∨ line.settings.pricingFile ≠ none
      · exact ⟨_, .noServer refresh readable offline⟩
      · push Not at offline
        exact ⟨_, .vain refresh offline.2 (Bool.eq_false_iff.2 offline.1)⟩
    · push Not at readable
      obtain ⟨path, named, none⟩ := readable
      exact failsFor_of_not_hasPriceList named e none

theorem run_of_service {started : Service} (h : service world line disk = (.ok started, disk)) :
    run world line disk = answer world line started disk := by
  rw [run, h]

theorem execute_of_run {words : List String} {ending : Ending} {disk' : Disk}
    (parsed : CommandLine.parse words = .ok line)
    (h : run world (configured world line disk) disk = (ending, disk')) :
    execute world words disk = (outcome ending, disk') := by
  rw [execute, parsed]
  simp only [h]

/-! ### A server without an answer -/

variable (failed : let options := line.settings.options world.home.path
  world.network options.remoteUrl options.fetchLimit 0 = .error e)
include failed

/-- A service that is started for a command has been given prices, and has changed no file. -/
theorem service_of_unnamed (unnamed : line.settings.pricingFile = none)
    (command : line.command ≠ .refresh) :
    ∃ started, service world line disk = (.ok started, disk) := by
  have kept : (Service.load (line.settings.options world.home.path) world.network disk
      world.now).2 = disk := by
    cases offline : line.settings.offline with
    | true => exact (Service.startsLocally_ofStart _ _ offline world.network disk world.now).1.disk
    | false => exact (Service.startsLocally_load offline failed disk world.now).disk
  refine ⟨(Service.load (line.settings.options world.home.path) world.network disk world.now).1, ?_⟩
  unfold service
  rw [unnamed]
  cases asked : line.command with
  | refresh => exact absurd asked command
  | cost model counts => exact Prod.ext rfl kept
  | resolve model => exact Prod.ext rfl kept

theorem run_of_failsFor {error : RunError} (fails : FailsFor line disk e error) :
    run world line disk = (.failed error, disk) := by
  cases fails with
  | unreadable named cause =>
    rw [run, service_of_named named, serviceOfFile_of_unreadable cause]
  | noPriceList named found cause =>
    rw [run, service_of_named named, serviceOfFile_of_unread found cause]
  | noServer refresh readable offline =>
    cases file : line.settings.pricingFile with
    | some path =>
      obtain ⟨table, started⟩ := serviceOfFile_of_hasPriceList (readable path file)
      have here : service world line disk = (serviceOfFile path disk, disk) :=
        service_of_named file
      rw [started] at here
      rw [run_of_service here]
      refine answer_of_refresh refresh ?_
      rw [Service.refresh_of_none rfl]
      exact ⟨rfl, rfl⟩
    | none =>
      have offline : line.settings.offline = true := by simpa [file] using offline
      rw [run, service_of_refresh file refresh]
      have vain :=
        @Service.refresh_loadLocal_offline (line.settings.options world.home.path) offline
      exact answer_of_refresh refresh (vain world.network disk world.now)
  | vain refresh unnamed online =>
    rw [run, service_of_refresh unnamed refresh]
    exact answer_of_refresh refresh (Service.refresh_loadLocal_vain online failed disk world.now)

theorem exists_service (command : line.command ≠ .refresh)
    (readable : ∀ path, line.settings.pricingFile = some path → HasPriceList disk path) :
    ∃ started, service world line disk = (.ok started, disk) := by
  cases file : line.settings.pricingFile with
  | some path =>
    obtain ⟨table, started⟩ := serviceOfFile_of_hasPriceList (readable path file)
    refine ⟨.ofPublished ⟨table, none⟩, ?_⟩
    rw [service_of_named file, started]
  | none => exact service_of_unnamed failed file command

theorem run_of_breaksOff (breaksOff : BreaksOff world line disk) :
    run world line disk = (.brokenOff, disk) := by
  obtain ⟨asks, readable⟩ := breaksOff
  have command : line.command ≠ .refresh := by
    obtain ⟨-, model, counts, command, -⟩ := asks
    rw [command]
    exact nofun
  obtain ⟨started, here⟩ := exists_service failed command readable
  rw [run_of_service here]
  exact answer_of_overflow asks started disk

/-- A run that neither fails for one of the reasons nor breaks off has an answer. -/
theorem run_of_not_failsFor (well : ¬ ∃ error, FailsFor line disk e error)
    (goesOn : ¬ BreaksOff world line disk) :
    ∃ output, run world line disk = (.printed output, disk) := by
  rw [exists_failsFor_iff] at well
  push Not at well
  obtain ⟨readable, command⟩ := well
  obtain ⟨started, here⟩ := exists_service failed command readable
  rw [run_of_service here]
  exact answer_of_ne_refresh command (fun asks => goesOn ⟨asks, readable⟩) started disk

/-- A run comes to one of three ends, and none of them changes a file. -/
theorem run_cases :
    (∃ error, FailsFor line disk e error ∧ run world line disk = (.failed error, disk)) ∨
      BreaksOff world line disk ∧ run world line disk = (.brokenOff, disk) ∨
      ∃ output, run world line disk = (.printed output, disk) := by
  by_cases well : ∃ error, FailsFor line disk e error
  · obtain ⟨error, fails⟩ := well
    exact .inl ⟨error, fails, run_of_failsFor failed fails⟩
  · by_cases breaksOff : BreaksOff world line disk
    · exact .inr (.inl ⟨breaksOff, run_of_breaksOff failed breaksOff⟩)
    · exact .inr (.inr (run_of_not_failsFor failed well breaksOff))

theorem disk_of_run : (run world line disk).2 = disk := by
  rcases run_cases failed with ⟨_, -, result⟩ | ⟨-, result⟩ | ⟨_, result⟩
  all_goals exact congrArg Prod.snd result

theorem run_fails_iff (error : RunError) :
    (run world line disk).1 = .failed error ↔ FailsFor line disk e error := by
  refine ⟨fun ending => ?_, fun fails => congrArg Prod.fst (run_of_failsFor failed fails)⟩
  rcases run_cases failed with ⟨error', fails, result⟩ | ⟨-, result⟩ | ⟨_, result⟩
  all_goals cases ending.symm.trans (congrArg Prod.fst result)
  exact fails

theorem run_breaksOff_iff :
    (run world line disk).1 = .brokenOff ↔ BreaksOff world line disk := by
  refine ⟨fun ending => ?_, fun breaksOff => congrArg Prod.fst (run_of_breaksOff failed breaksOff)⟩
  rcases run_cases failed with ⟨_, -, result⟩ | ⟨breaksOff, result⟩ | ⟨_, result⟩
  all_goals cases ending.symm.trans (congrArg Prod.fst result)
  exact breaksOff

end

/-- Every run that its server leaves without an answer: no file is changed, and it fails for one of
the reasons above and for no other, with nothing printed. A command that asks for a price or a name
without naming a price list is always answered, unless the run breaks off, which happens at a sum
out of range, and only in a build that looks for one. -/
theorem run_fails_for {world : World} {words : List String} {line : CommandLine} {disk : Disk}
    {e : PricingError} (parsed : CommandLine.parse words = .ok line)
    (failed : let options := (configured world line disk).settings.options world.home.path
      world.network options.remoteUrl options.fetchLimit 0 = .error e) :
    let here := configured world line disk
    let result := run world here disk
    result.2 = disk ∧
    (∀ error, result.1 = .failed error ↔ FailsFor here disk e error) ∧
    ((∃ error, result.1 = .failed error) ↔
      (∃ path, line.settings.pricingFile = some path ∧ ¬ HasPriceList disk path) ∨
        line.command = .refresh) ∧
    (result.1 = .brokenOff ↔ BreaksOff world line disk) ∧
    (line.settings.pricingFile = none → line.command ≠ .refresh →
      (∃ output, result.1 = .printed output) ∨ AsksForOverflow world line) ∧
    (world.checksSums = false → line.settings.pricingFile = none → line.command ≠ .refresh →
      ∃ output, result.1 = .printed output) ∧
    (here.settings.offline = true ↔
      line.settings.offline = true ∨ (Config.load disk world.home).offline = true) ∧
    (∀ error, result.1 = .failed error →
      execute world words disk = (⟨1, "", error.message ++ "\n"⟩, disk)) ∧
    (result.1 = .brokenOff → (execute world words disk).1.output = "" ∧
      (execute world words disk).2 = disk) ∧
    ∀ output, result.1 = .printed output → execute world words disk = (⟨0, output, ""⟩, disk) := by
  intro here result
  have kept : result.2 = disk := disk_of_run failed
  have causes : ∀ error, result.1 = .failed error ↔ FailsFor here disk e error :=
    run_fails_iff failed
  have broken : result.1 = .brokenOff ↔ BreaksOff world line disk := run_breaksOff_iff failed
  have fails_iff : (∃ error, result.1 = .failed error) ↔
      (∃ path, line.settings.pricingFile = some path ∧ ¬ HasPriceList disk path) ∨
        line.command = .refresh := by
    simp only [causes]
    exact exists_failsFor_iff
  have answered : line.settings.pricingFile = none → line.command ≠ .refresh →
      (∃ output, result.1 = .printed output) ∨ AsksForOverflow world line := by
    intro unnamed command
    cases ending : result.1 with
    | printed output => exact .inl ⟨output, rfl⟩
    | failed error =>
      rcases fails_iff.1 ⟨error, ending⟩ with ⟨path, named, -⟩ | refresh
      · cases unnamed.symm.trans named
      · exact absurd refresh command
    | brokenOff => exact .inr (broken.1 ending).1
  refine ⟨kept, causes, fails_iff, broken, answered, fun unchecked unnamed command => ?_,
    Bool.or_eq_true_iff, fun error h => execute_of_run parsed (Prod.ext h kept), fun h => ?_,
    fun output h => execute_of_run parsed (Prod.ext h kept)⟩
  · refine (answered unnamed command).resolve_right fun asks => ?_
    cases unchecked.symm.trans asks.1
  · rw [execute_of_run parsed (Prod.ext h kept)]
    exact ⟨rfl, rfl⟩

/-- Without a connection a refresh fails, and a price is given all the same. -/
theorem run_fails_for_no_connection :
    let world : World :=
      { home := ⟨"/", none⟩
        network := fun _ _ _ => .error (.notFetched "no connection")
        now := .epoch }
    execute world ["refresh"] (.empty []) =
        (⟨1, "", "Remote pricing request failed: no connection\n"⟩, .empty []) ∧
      ∃ output, execute world ["cost", "gpt-5"] (.empty []) = (⟨0, output, ""⟩, .empty []) := by
  intro world
  have refresh : ∃ line, CommandLine.parse ["refresh"] = .ok line ∧ line.command = .refresh ∧
      line.settings.pricingFile = none ∧
      (configured world line (.empty [])).settings.offline = false := by
    have parsed : (CommandLine.parse ["refresh"]).toOption.map (fun line =>
        (line.command, line.settings.pricingFile,
          (configured world line (.empty [])).settings.offline)) =
        some (.refresh, none, false) := by decide +kernel
    obtain ⟨line, isLine, facts⟩ := Option.map_eq_some_iff.1 parsed
    simp only [Prod.mk.injEq] at facts
    exact ⟨line, toOption_eq_some_iff.1 isLine, facts⟩
  have cost : ∃ line, CommandLine.parse ["cost", "gpt-5"] = .ok line ∧ line.command ≠ .refresh ∧
      line.settings.pricingFile = none := by
    have parsed : (CommandLine.parse ["cost", "gpt-5"]).toOption.map (fun line =>
        (decide (line.command = .refresh), line.settings.pricingFile)) =
        some (false, none) := by decide +kernel
    obtain ⟨line, isLine, facts⟩ := Option.map_eq_some_iff.1 parsed
    simp only [Prod.mk.injEq, decide_eq_false_iff_not] at facts
    exact ⟨line, toOption_eq_some_iff.1 isLine, facts⟩
  have failed (line : CommandLine) :
      let options := (configured world line (.empty [])).settings.options world.home.path
      world.network options.remoteUrl options.fetchLimit 0 = .error (.notFetched "no connection") :=
    rfl
  constructor
  · obtain ⟨line, parsed, command, unnamed, online⟩ := refresh
    obtain ⟨-, causes, -, -, -, -, -, complains, -⟩ := run_fails_for parsed (failed line)
    exact complains _ ((causes _).2 (.vain command unnamed online))
  · obtain ⟨line, parsed, command, unnamed⟩ := cost
    obtain ⟨-, -, -, -, -, answered, -, -, -, prints⟩ := run_fails_for parsed (failed line)
    obtain ⟨output, isOutput⟩ := answered rfl unnamed command
    exact ⟨output, prints output isOutput⟩

end Program

end TokenTariff
