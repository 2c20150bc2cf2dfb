import TokenTariff.CommandLine.Command
import TokenTariff.Proofs.FileTree
/-!
# Options in effect

The options of a run come from its command line, from the configuration of the user, and from the
defaults, in this order; a switch is on if either of the first two turns it on. The configuration is
that of the first file that holds one: a file that is not there, that is no text or whose text is
refused is passed over. Both durations are what the configuration says in hours, where that is
positive and its seconds fit into 64 bits, and a day otherwise.

* `Config.Holds`: a file holds a configuration;
* `Config.load_iff`: which configuration is loaded;
* `CommandLine.options_in_effect`: all of it for a parsed command line.
-/

namespace TokenTariff
set_option autoImplicit false

/-! ## The configuration -/

namespace Config
variable {disk : Disk} {path : String} {config : Config}

/-- A file is there, its content is a text, and the text is that of a configuration. -/
def Holds (disk : Disk) (path : String) (config : Config) : Prop :=
  disk.has path = true ∧ ∃ content text, disk.read path = .ok content ∧
    Bytes.text? content = some text ∧ read? text = some config

theorem file?_eq_some_iff : file? disk path = some config ↔ Holds disk path config := by
  have read_iff : file? disk path = some config ↔ ∃ content, disk.read path = .ok content ∧
      ∃ text, Bytes.text? content = some text ∧ read? text = some config := by
    simp only [file?, Option.bind_eq_bind, Option.bind_eq_some_iff, toOption_eq_some_iff]
  rw [read_iff]
  constructor
  · intro ⟨content, read, text, isText, isConfig⟩
    exact ⟨Disk.has_of_read read, content, text, read, isText, isConfig⟩
  · intro ⟨_, content, text, read, isText, isConfig⟩
    exact ⟨content, read, text, isText, isConfig⟩

theorem file?_eq_none_iff : file? disk path = none ↔ ∀ config, ¬ Holds disk path config := by
  simp only [← file?_eq_some_iff, Option.eq_none_iff_forall_ne_some]

/-- A configuration that the first of some files holds that holds one. -/
def FirstHolds (disk : Disk) (paths : List String) (config : Config) : Prop :=
  ∃ before path after, paths = before ++ path :: after ∧ Holds disk path config ∧
    ∀ other ∈ before, ∀ config, ¬ Holds disk other config

theorem findSome?_eq_some_iff {paths : List String} :
    paths.findSome? (file? disk) = some config ↔ FirstHolds disk paths config := by
  simp only [List.findSome?_eq_some_iff, file?_eq_none_iff, file?_eq_some_iff, FirstHolds]

theorem load_iff {home : Home} : load disk home = config ↔
    FirstHolds disk (paths home) config ∨
      (∀ path ∈ paths home, ∀ other, ¬ Holds disk path other) ∧ config = empty := by
  rw [load]
  cases found : (paths home).findSome? (file? disk) with
  | some first =>
    have holds := findSome?_eq_some_iff.1 found
    have some_iff : FirstHolds disk (paths home) config ↔ first = config := by
      rw [← findSome?_eq_some_iff, found, Option.some_inj]
    obtain ⟨before, path, after, split, here, -⟩ := holds
    have mem : path ∈ paths home := by
      rw [split]
      exact List.mem_append_right _ List.mem_cons_self
    have notNone : ¬ ∀ path ∈ paths home, ∀ other, ¬ Holds disk path other :=
      fun none => none path mem first here
    simp [some_iff, notNone]
  | none =>
    have none := List.findSome?_eq_none_iff.1 found
    simp only [file?_eq_none_iff] at none
    have notSome : ¬ FirstHolds disk (paths home) config := by
      rw [← findSome?_eq_some_iff, found]
      exact nofun
    simp only [Option.getD_none, notSome, false_or, and_iff_right none]
    exact eq_comm

end Config

/-! ## Settings -/

namespace Settings
variable {settings : Settings} {config : Config}

theorem withConfig_withConfig (settings : Settings) (config : Config) :
    (settings.withConfig config).withConfig config = settings.withConfig config := by
  simp [withConfig, Option.or_assoc]

theorem interval?_eq_some {hours : Nat} (positive : 0 < hours)
    (fits : hours * 3600 < 0x10000000000000000) :
    interval? hours = some (.ofSeconds (hours * 3600)) :=
  if_pos ⟨positive, fits⟩

theorem interval?_eq_none {hours : Nat} (h : hours = 0 ∨ 0x10000000000000000 ≤ hours * 3600) :
    interval? hours = none :=
  if_neg (by omega)

/-- What a run without hours of its own takes as its interval. -/
def intervalOf (hours : Option Nat) : Duration :=
  (hours.bind interval?).getD Options.defaultInterval

theorem intervalOf_of_fits {hours : Nat} (positive : 0 < hours)
    (fits : hours * 3600 < 0x10000000000000000) :
    intervalOf (some hours) = .ofSeconds (hours * 3600) := by
  rw [intervalOf, Option.bind_some, interval?_eq_some positive fits, Option.getD_some]

theorem intervalOf_of_none {hours : Option Nat}
    (h : ∀ n, hours = some n → n = 0 ∨ 0x10000000000000000 ≤ n * 3600) :
    intervalOf hours = .ofHours 24 := by
  cases hours with
  | none => rfl
  | some n =>
    rw [intervalOf, Option.bind_some, interval?_eq_none (h n rfl), Option.getD_none,
      Options.defaultInterval]

theorem seconds_ofSeconds (n : Nat) : (Duration.ofSeconds n).seconds = n :=
  Nat.mul_div_cancel n (by decide)

/-- Every interval is a positive number of seconds of 64 bits. -/
theorem exists_seconds_intervalOf (hours : Option Nat) :
    ∃ n, 0 < n ∧ n < 0x10000000000000000 ∧ intervalOf hours = .ofSeconds n := by
  by_cases good : ∃ n, hours = some n ∧ 0 < n ∧ n * 3600 < 0x10000000000000000
  · obtain ⟨n, rfl, positive, fits⟩ := good
    exact ⟨n * 3600, by omega, fits, intervalOf_of_fits positive fits⟩
  · refine ⟨86400, by decide, by decide, ?_⟩
    rw [intervalOf_of_none fun n given => ?_]
    · rfl
    · have bad : ¬ (0 < n ∧ n * 3600 < 0x10000000000000000) := fun fits => good ⟨n, given, fits⟩
      omega

theorem intervalOf_pos (hours : Option Nat) : 0 < (intervalOf hours).nanos := by
  obtain ⟨n, positive, -, interval⟩ := exists_seconds_intervalOf hours
  rw [interval]
  exact Nat.mul_pos positive (by decide)

theorem seconds_intervalOf_lt (hours : Option Nat) :
    (intervalOf hours).seconds < 0x10000000000000000 := by
  obtain ⟨n, -, fits, interval⟩ := exists_seconds_intervalOf hours
  rw [interval, seconds_ofSeconds]
  exact fits

end Settings

/-! ## Command lines -/

namespace CommandLine

/-- No word of a command line sets the path of the file on disk or an interval. -/
theorem settings_of_parseFrom {line : CommandLine} : ∀ {words : List String} {scan : Scan},
    parseFrom words scan = .ok line →
      line.settings.cachePath = none ∧ line.settings.refreshHours = none
  | [], _, parsed => nomatch parsed
  | word :: words, scan, parsed => by
    rw [parseFrom] at parsed
    split at parsed
    · cases parsed
    split at parsed
    · obtain ⟨next, -, parsed⟩ := bind_eq_ok_iff.1 parsed
      exact settings_of_parseFrom parsed
    split at parsed
    · cases parsed
    split at parsed
    · cases parsed
    · obtain ⟨_, -, parsed⟩ := bind_eq_ok_iff.1 parsed
      obtain ⟨_, -, parsed⟩ := bind_eq_ok_iff.1 parsed
      cases parsed
      exact ⟨rfl, rfl⟩

/-- The options of a run. The configuration is that of the first file that holds one, whatever the
other files are, or the empty one if none does. Offline is on if either side turns it on; the
address is that of the command line, else that of the configuration, else the default; the path is
that of the configuration, else the default, if the home directory is known. Both durations are the
hours of the configuration to the second, where these are positive and their seconds fit into 64
bits, and a day otherwise; so they are neither zero nor cut off. Completing the settings once more
by the same configuration changes nothing. -/
theorem options_in_effect {words : List String} {line : CommandLine}
    (parsed : parse words = .ok line) (disk : Disk) (home : Config.Home) :
    let config := Config.load disk home
    let settings := line.settings.withConfig config
    let options := settings.options home.path
    (Config.FirstHolds disk (Config.paths home) config ∨
      (∀ path ∈ Config.paths home, ∀ other, ¬ Config.Holds disk path other) ∧ config = .empty) ∧
    options.offline = (line.settings.offline || config.offline) ∧
    options.remoteUrl = (line.settings.pricingUrl.or config.pricingUrl).getD Options.defaultUrl ∧
    options.cachePath = config.cachePath.or (home.path.map Options.defaultCachePath) ∧
    options.cacheTtl = options.refreshInterval ∧
    (∀ hours, config.refreshHours = some hours → 0 < hours →
      hours * 3600 < 0x10000000000000000 →
      options.refreshInterval = .ofSeconds (hours * 3600)) ∧
    ((∀ hours, config.refreshHours = some hours →
      hours = 0 ∨ 0x10000000000000000 ≤ hours * 3600) →
      options.refreshInterval = .ofHours 24) ∧
    0 < options.refreshInterval.nanos ∧
    options.refreshInterval.seconds < 0x10000000000000000 ∧
    settings.withConfig config = settings := by
  intro config settings options
  obtain ⟨noPath, noHours⟩ := settings_of_parseFrom parsed
  have path : options.cachePath = config.cachePath.or (home.path.map Options.defaultCachePath) := by
    change (line.settings.cachePath.or config.cachePath).or _ = _
    rw [noPath, Option.none_or]
    rfl
  have interval : options.refreshInterval = Settings.intervalOf config.refreshHours := by
    change Settings.intervalOf (line.settings.refreshHours.or config.refreshHours) = _
    rw [noHours, Option.none_or]
  refine ⟨Config.load_iff.1 rfl, rfl, rfl, path, rfl, ?_⟩
  rw [interval]
  refine ⟨fun hours given positive fits => ?_, fun bad => ?_, ?_, ?_,
    Settings.withConfig_withConfig _ _⟩
  · rw [given]
    exact Settings.intervalOf_of_fits positive fits
  · exact Settings.intervalOf_of_none bad
  · exact Settings.intervalOf_pos _
  · exact Settings.seconds_intervalOf_lt _

/-- A first file whose text is refused, a second one with the greatest number of hours that fits,
and a command line that has an address of its own. -/
theorem options_in_effect_second_file :
    let refused := FileTree.file (Bytes.ofText "refresh_hours = -1")
    let taken := FileTree.file (Bytes.ofText
      "offline = true\npricing_url = \"b\"\nrefresh_hours = 5124095576030431")
    let inside (file : FileTree) :=
      FileTree.directory [(Options.programName, .directory [("config.toml", file)])]
    let disk : Disk := ⟨.directory [(".config", inside refused), ("other", inside taken)], []⟩
    let home : Config.Home := ⟨"/", some "/other"⟩
    ∃ line, parse ["--pricing-url=a", "refresh"] = .ok line ∧
      Config.FirstHolds disk (Config.paths home) (Config.load disk home) ∧
      let options := (line.settings.withConfig (Config.load disk home)).options home.path
      options.offline = true ∧ options.remoteUrl = "a" ∧
      options.cachePath = some "/.cache/model-pricing/model_prices_and_context_window.json" ∧
      options.cacheTtl = .ofSeconds 18446744073709551600 := by
  intro refused taken inside disk home
  obtain ⟨line, parsed, settings⟩ : ∃ line, parse ["--pricing-url=a", "refresh"] = .ok line ∧
      (line.settings.offline, line.settings.pricingUrl) = (false, some "a") := by
    have facts : (parse ["--pricing-url=a", "refresh"]).toOption.map
        (fun line => (line.settings.offline, line.settings.pricingUrl)) =
          some (false, some "a") := by decide +kernel
    obtain ⟨line, parsed, settings⟩ := Option.map_eq_some_iff.1 facts
    exact ⟨line, toOption_eq_some_iff.1 parsed, settings⟩
  have loaded : Config.load disk home =
      ⟨true, false, some "b", none, some 5124095576030431⟩ := by decide +kernel
  obtain ⟨offlineIs, urlIs⟩ := Prod.mk.inj settings
  obtain ⟨first, offline, url, path, ttl, fits, -⟩ := options_in_effect parsed disk home
  rw [loaded] at first offline url path ttl fits ⊢
  refine ⟨line, parsed, first.resolve_right fun none => ?_, ?_, ?_, ?_, ?_⟩
  · exact absurd none.2 (by decide)
  · rw [offline, offlineIs]
    rfl
  · rw [url, urlIs]
    rfl
  · rw [path]
    decide
  · rw [ttl, fits _ rfl (by decide) (by decide)]

end CommandLine

end TokenTariff
