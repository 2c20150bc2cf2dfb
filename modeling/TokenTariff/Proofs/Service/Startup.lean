import TokenTariff.Proofs.Freshness
import TokenTariff.Service
/-!
# The start of a service

A start asks its origins one after another, each of them once, up to the first one that gives a
price list with a table. A load may fail, and so may the reading of what was loaded; either makes
the next origin come into question. What a service finds without the answer of a server is told by
the file on disk alone.

* `Origin.Gives`, `Origin.Fails`: what becomes of one origin, and `Origin.AllFail` of several;
* `CacheFile.Holds`, `Expired`: what the file has, and whether its time is over;
* `Options.LocalPrices`: the prices that are found without a server;
* `Service.starts_from_first_origin`: every start.
-/

namespace TokenTariff
set_option autoImplicit false

namespace Origin

/-! ## One origin -/

/-- What the load of an origin brings, and the disk after it. The bundled prices need no load. -/
inductive Loads (now : Instant) (disk : Disk) :
    Origin → Except PricingError Fetched → Disk → Prop where
  | cache (file : CacheFile) (ttl : Option Duration) :
      Loads now disk (.cache file ttl)
        ((file.load disk ttl now).map fun list => ⟨list.document, some list.fetched⟩) disk
  | remote (server : Remote) :
      Loads now disk (.remote server) (server.load 0 disk now).1 (server.load 0 disk now).2

/-- The load of an origin succeeds, and what was loaded has a table. -/
inductive Gives (now : Instant) (disk : Disk) : Origin → Published → Disk → Prop where
  | loaded {origin : Origin} {fetched : Fetched} {table : Table} {after : Disk}
      (loads : origin.Loads now disk (.ok fetched) after)
      (read : Table.read fetched.document = .ok table) :
      Gives now disk origin ⟨table, fetched.updated⟩ after
  | bundled : Gives now disk .bundled .bundled disk

/-- The load of an origin fails, or what was loaded has no table. -/
inductive Fails (now : Instant) (disk : Disk) : Origin → Disk → Prop where
  | load {origin : Origin} {e : PricingError} {after : Disk}
      (loads : origin.Loads now disk (.error e) after) : Fails now disk origin after
  | read {origin : Origin} {fetched : Fetched} {e : Json.Error} {after : Disk}
      (loads : origin.Loads now disk (.ok fetched) after)
      (unread : Table.read fetched.document = .error e) : Fails now disk origin after

theorem load_of_loads {now : Instant} {disk after : Disk} {origin : Origin}
    {fetched : Except PricingError Fetched} (loads : origin.Loads now disk fetched after) :
    origin.load disk now = (fetched.bind Published.ofFetched, after) := by
  cases loads with
  | cache file ttl =>
    rw [Origin.load, loadCache]
    cases file.load disk ttl now <;> rfl
  | remote server => rfl

theorem bundled_or_loads (now : Instant) (disk : Disk) (origin : Origin) :
    origin = .bundled ∨ ∃ fetched after, origin.Loads now disk fetched after := by
  cases origin with
  | cache file ttl => exact .inr ⟨_, _, .cache file ttl⟩
  | remote server => exact .inr ⟨_, _, .remote server⟩
  | bundled => exact .inl rfl

theorem load_of_gives {now : Instant} {disk after : Disk} {origin : Origin} {published : Published}
    (gives : origin.Gives now disk published after) :
    origin.load disk now = (.ok published, after) := by
  cases gives with
  | loaded loads read =>
    rw [load_of_loads loads, Except.bind, Published.ofFetched, read]
  | bundled => rfl

theorem load_of_fails {now : Instant} {disk after : Disk} {origin : Origin}
    (fails : origin.Fails now disk after) : ∃ e, origin.load disk now = (.error e, after) := by
  cases fails with
  | load loads => exact ⟨_, load_of_loads loads⟩
  | read loads unread =>
    have load := load_of_loads loads
    rw [Except.bind, Published.ofFetched, unread] at load
    exact ⟨_, load⟩

theorem gives_or_fails (now : Instant) (disk : Disk) (origin : Origin) :
    (∃ published after, origin.Gives now disk published after) ∨
      ∃ after, origin.Fails now disk after := by
  rcases origin.bundled_or_loads now disk with rfl | ⟨fetched, after, loads⟩
  · exact .inl ⟨_, _, .bundled⟩
  cases fetched with
  | error e => exact .inr ⟨after, .load loads⟩
  | ok fetched =>
    cases read : Table.read fetched.document with
    | error e => exact .inr ⟨after, .read loads read⟩
    | ok table => exact .inl ⟨_, after, .loaded loads read⟩

/-! ## Origins one after another -/

/-- Origins fail one after another, each on the disk that the one before it left behind. -/
inductive AllFail (now : Instant) : List Origin → Disk → Disk → Prop where
  | nil (disk : Disk) : AllFail now [] disk disk
  | cons {origin : Origin} {origins : List Origin} {disk between after : Disk}
      (first : origin.Fails now disk between) (others : AllFail now origins between after) :
      AllFail now (origin :: origins) disk after

end Origin

open Origin

theorem firstAvailable_of_gives {now : Instant} {origin : Origin} {disk after : Disk}
    {published : Published} (gives : origin.Gives now disk published after)
    (origins : List Origin) :
    firstAvailable now (origin :: origins) disk = ⟨published, 1, after⟩ := by
  rw [firstAvailable, load_of_gives gives]

theorem firstAvailable_of_fails {now : Instant} {origin : Origin} {disk after : Disk}
    (fails : origin.Fails now disk after) (origins : List Origin) :
    firstAvailable now (origin :: origins) disk =
      { firstAvailable now origins after with
        asked := (firstAvailable now origins after).asked + 1 } := by
  obtain ⟨e, failed⟩ := load_of_fails fails
  rw [firstAvailable, failed]

theorem firstAvailable_append {now : Instant} {origins : List Origin} {disk after : Disk}
    (all : AllFail now origins disk after) (others : List Origin) :
    firstAvailable now (origins ++ others) disk =
      { firstAvailable now others after with
        asked := origins.length + (firstAvailable now others after).asked } := by
  -- each failure is one origin more that was asked, and hands its disk to the next one
  induction all with
  | nil disk => simp
  | @cons origin origins disk between after fails all ih =>
    rw [List.cons_append, firstAvailable_of_fails fails, ih, List.length_cons]
    simp only [Startup.mk.injEq, true_and, and_true]
    omega

theorem gives_or_allFail (now : Instant) (origins : List Origin) (disk : Disk) :
    (∃ before origin after between published last, origins = before ++ origin :: after ∧
        AllFail now before disk between ∧ origin.Gives now between published last) ∨
      ∃ last, AllFail now origins disk last := by
  induction origins generalizing disk with
  | nil => exact .inr ⟨disk, .nil disk⟩
  | cons origin origins ih =>
    rcases origin.gives_or_fails now disk with ⟨published, after, gives⟩ | ⟨between, fails⟩
    · exact .inl ⟨[], origin, origins, disk, published, after, rfl, .nil disk, gives⟩
    rcases ih between with ⟨before, first, after, last, published, final, rfl, all, gives⟩ |
      ⟨last, all⟩
    · refine .inl ⟨origin :: before, first, after, last, published, final, rfl, ?_, gives⟩
      exact .cons fails all
    · exact .inr ⟨last, .cons fails all⟩

/-- A list of origins gives the table of the first one that has any, after it has asked those before
it and no others; without one it gives the bundled table. -/
theorem firstAvailable_cases (now : Instant) (origins : List Origin) (disk : Disk) :
    (∃ before origin after between published last, origins = before ++ origin :: after ∧
        AllFail now before disk between ∧ origin.Gives now between published last ∧
        firstAvailable now origins disk = ⟨published, before.length + 1, last⟩) ∨
      ∃ last, AllFail now origins disk last ∧
        firstAvailable now origins disk = ⟨.bundled, origins.length, last⟩ := by
  rcases gives_or_allFail now origins disk with
    ⟨before, origin, after, between, published, last, rfl, all, gives⟩ | ⟨last, all⟩
  · refine .inl ⟨before, origin, after, between, published, last, rfl, all, gives, ?_⟩
    rw [firstAvailable_append all, firstAvailable_of_gives gives]
  · refine .inr ⟨last, all, ?_⟩
    have passed := firstAvailable_append all []
    rw [List.append_nil] at passed
    exact passed

/-! ## The file on disk -/

/-- The file has a price list with this table, fetched at this time. -/
def CacheFile.Holds (cache : CacheFile) (disk : Disk) (table : Table) (fetched : Instant) : Prop :=
  ∃ content document, disk.read cache.path = .ok content ∧ parse content = .ok ⟨document, fetched⟩ ∧
    Table.read document = .ok table

theorem Origin.loads_cache_iff {file : CacheFile} {ttl : Option Duration} {now : Instant}
    {disk after : Disk} {fetched : Except PricingError Fetched} :
    Loads now disk (.cache file ttl) fetched after ↔
      ((file.load disk ttl now).map fun list => ⟨list.document, some list.fetched⟩) = fetched ∧
        after = disk := by
  constructor
  · intro loads
    cases loads
    exact ⟨rfl, rfl⟩
  · rintro ⟨rfl, rfl⟩
    exact .cache file ttl

/-- The file gives what it has, unless its time is over. -/
theorem Origin.gives_cache_iff {file : CacheFile} {ttl : Option Duration} {now : Instant}
    {disk after : Disk} {published : Published} :
    Gives now disk (.cache file ttl) published after ↔
      ∃ table fetched, file.Holds disk table fetched ∧ ¬ Expired ttl now fetched ∧
        published = ⟨table, some fetched⟩ ∧ after = disk := by
  constructor
  · rintro (⟨loads, read⟩ | _)
    obtain ⟨given, rfl⟩ := loads_cache_iff.1 loads
    obtain ⟨list, loaded, rfl⟩ := map_eq_ok_iff.1 given
    obtain ⟨content, isContent, parsed, fresh⟩ := CacheFile.load_eq_ok_iff.1 loaded
    exact ⟨_, _, ⟨content, list.document, isContent, parsed, read⟩, fresh, rfl, rfl⟩
  · rintro ⟨table, fetched, ⟨content, document, isContent, parsed, read⟩, fresh, rfl, rfl⟩
    have loaded := CacheFile.load_eq_ok_iff.2 ⟨content, isContent, parsed, fresh⟩
    have loads := loads_cache_iff.2 ⟨map_eq_ok_iff.2 ⟨_, loaded, rfl⟩, rfl⟩
    exact .loaded loads read

/-- The file fails if it has nothing, or if its time is over. -/
theorem Origin.expired_of_fails {file : CacheFile} {ttl : Option Duration} {now : Instant}
    {disk after : Disk} (fails : Fails now disk (.cache file ttl) after) :
    after = disk ∧
      ∀ table fetched, file.Holds disk table fetched → Expired ttl now fetched := by
  obtain ⟨e, failed⟩ := load_of_fails fails
  refine ⟨(congrArg Prod.snd failed).symm, fun table fetched holds => ?_⟩
  -- otherwise the same load would also have succeeded
  by_contra fresh
  have gives := gives_cache_iff.2 ⟨table, fetched, holds, fresh, rfl, rfl⟩
  rw [load_of_gives gives] at failed
  cases failed

/-! ## Prices without a server -/

/-- The prices that are found without a server: those of the file, if it has any whose time is not
over, or else the bundled ones. -/
inductive LocalPrices (cachePath : Option String) (ttl : Option Duration) (disk : Disk)
    (now : Instant) : Published → Prop where
  | cached {path : String} {table : Table} {fetched : Instant} (path_eq : cachePath = some path)
      (holds : (CacheFile.mk path).Holds disk table fetched) (fresh : ¬ Expired ttl now fetched) :
      LocalPrices cachePath ttl disk now ⟨table, some fetched⟩
  | bundled
      (expired : ∀ path table fetched, cachePath = some path →
        (CacheFile.mk path).Holds disk table fetched → Expired ttl now fetched) :
      LocalPrices cachePath ttl disk now .bundled

theorem CacheFile.Holds.unique {cache : CacheFile} {disk : Disk} {table table' : Table}
    {fetched fetched' : Instant} (h : cache.Holds disk table fetched)
    (h' : cache.Holds disk table' fetched') : table = table' ∧ fetched = fetched' := by
  obtain ⟨content, document, isContent, parsed, read⟩ := h
  obtain ⟨content', document', isContent', parsed', read'⟩ := h'
  cases isContent.symm.trans isContent'
  cases parsed.symm.trans parsed'
  cases read.symm.trans read'
  exact ⟨rfl, rfl⟩

theorem LocalPrices.unique {cachePath : Option String} {ttl : Option Duration} {disk : Disk}
    {now : Instant} {published published' : Published}
    (h : LocalPrices cachePath ttl disk now published)
    (h' : LocalPrices cachePath ttl disk now published') : published = published' := by
  cases h with
  | cached path_eq holds fresh =>
    cases h' with
    | cached path_eq' holds' _ =>
      cases path_eq.symm.trans path_eq'
      obtain ⟨rfl, rfl⟩ := holds.unique holds'
      rfl
    | bundled expired => exact absurd (expired _ _ _ path_eq holds) fresh
  | bundled expired =>
    cases h' with
    | cached path_eq holds fresh => exact absurd (expired _ _ _ path_eq holds) fresh
    | bundled _ => rfl

/-- Between the file and the bundled prices, servers that fail and leave the disk alone change
nothing. -/
theorem localPrices_firstAvailable (cachePath : Option String) (ttl : Option Duration)
    {now : Instant} {disk : Disk} {servers : List Origin} (all : AllFail now servers disk disk) :
    let cached := (cachePath.map fun path => Origin.cache ⟨path⟩ ttl).toList
    let startup := firstAvailable now (cached ++ servers ++ [.bundled]) disk
    LocalPrices cachePath ttl disk now startup.published ∧ startup.disk = disk := by
  have rest := firstAvailable_append all [.bundled]
  rw [firstAvailable_of_gives .bundled] at rest
  cases cachePath with
  | none =>
    simp only [Option.map_none, Option.toList_none, List.nil_append, rest]
    exact ⟨.bundled nofun, trivial⟩
  | some path =>
    simp only [Option.map_some, Option.toList_some, List.cons_append, List.nil_append]
    -- the servers come into question only when the file fails
    rcases (Origin.cache ⟨path⟩ ttl).gives_or_fails now disk with ⟨published, after, gives⟩ |
      ⟨after, fails⟩
    · rw [firstAvailable_of_gives gives]
      obtain ⟨table, fetched, holds, fresh, rfl, rfl⟩ := gives_cache_iff.1 gives
      exact ⟨.cached rfl holds fresh, rfl⟩
    · obtain ⟨rfl, expired⟩ := expired_of_fails fails
      rw [firstAvailable_of_fails fails, rest]
      refine ⟨.bundled fun path' table fetched same holds => ?_, rfl⟩
      cases same
      exact expired table fetched holds

/-! ## Starts -/

namespace Service

/-- A start that finds its prices without a server, and leaves the disk as it is. -/
structure StartsLocally (cachePath : Option String) (ttl : Option Duration) (disk : Disk)
    (now : Instant) (started : Service × Disk) : Prop where
  prices : LocalPrices cachePath ttl disk now started.1.active
  disk : started.2 = disk

/-- A start that is offline, for a service that need not be: no server is asked. -/
theorem startsLocally_ofStart (offline options : Options) (h : offline.offline = true)
    (network : Network) (disk : Disk) (now : Instant) :
    let started := ofStart (offline.origins network) options network disk now
    StartsLocally offline.cachePath none disk now started ∧ started.1.loads = 0 := by
  have origins : offline.origins network =
      (offline.cachePath.map fun path => Origin.cache ⟨path⟩ none).toList ++ [] ++ [.bundled] := by
    simp [Options.origins, Options.remote, h]
  have none : AllFail now [] disk disk := .nil disk
  have found := localPrices_firstAvailable offline.cachePath Option.none none
  have noServer : ∀ origin ∈ offline.origins network, origin.isRemote = false := by
    intro origin mem
    rw [origins] at mem
    cases path_eq : offline.cachePath <;> rw [path_eq] at mem <;> simp at mem
    · rw [mem]; rfl
    · rcases mem with rfl | rfl <;> rfl
  refine ⟨⟨?_, ?_⟩, ?_⟩
  · rw [ofStart, origins]
    exact found.1
  · rw [ofStart, origins]
    exact found.2
  · refine List.countP_eq_zero.2 fun origin mem => ?_
    simp [noServer origin (List.mem_of_mem_take mem)]

theorem startsLocally_load {options : Options} {network : Network} {e : PricingError}
    (online : options.offline = false)
    (failed : network options.remoteUrl options.fetchLimit 0 = .error e) (disk : Disk)
    (now : Instant) :
    StartsLocally options.cachePath (some options.cacheTtl) disk now
      (load options network disk now) := by
  have origins : options.origins network =
      (options.cachePath.map fun path => Origin.cache ⟨path⟩ (some options.cacheTtl)).toList ++
        [.remote (.server (network options.remoteUrl options.fetchLimit)
          (options.cachePath.map CacheFile.mk))] ++ [.bundled] := by
    simp [Options.origins, Options.remote, online]
  have fails : Fails now disk (.remote (.server (network options.remoteUrl options.fetchLimit)
      (options.cachePath.map CacheFile.mk))) disk := by
    have loads : Loads now disk _ _ _ := .remote (.server (network options.remoteUrl
      options.fetchLimit) (options.cachePath.map CacheFile.mk))
    rw [Remote.load, failed] at loads
    exact .load loads
  have found := localPrices_firstAvailable options.cachePath (some options.cacheTtl)
    (.cons fails (.nil disk))
  constructor
  · rw [load, ofStart, origins]
    exact found.1
  · rw [load, ofStart, origins]
    exact found.2

theorem startTicking_eq (service : Service) (now : Instant) :
    ∃ tick, service.startTicking now = { service with nextTick := tick } := by
  rw [startTicking]
  split
  · exact ⟨_, rfl⟩
  · exact ⟨_, rfl⟩

theorem StartsLocally.startTicking {cachePath : Option String} {ttl : Option Duration} {disk : Disk}
    {now : Instant} {started : Service × Disk} (h : StartsLocally cachePath ttl disk now started) :
    StartsLocally cachePath ttl disk now (started.1.startTicking now, started.2) := by
  obtain ⟨tick, ticking⟩ := startTicking_eq started.1 now
  rw [ticking]
  exact ⟨h.prices, h.disk⟩

/-- A list of origins gives the table and the time of the first one that is loaded and has a table,
after it has loaded those before it and none behind it, or else the bundled table without a time.
A service that starts without asking a server, or offline, takes what the file has at any age; one
that asks a server in vain takes what the file has within the time to live. All others have the
bundled table, and no file is changed. -/
theorem starts_from_first_origin (origins : List Origin) (options : Options) (network : Network)
    (disk : Disk) (now : Instant) :
    ((∃ before origin after between published last, origins = before ++ origin :: after ∧
          AllFail now before disk between ∧ origin.Gives now between published last ∧
          firstAvailable now origins disk = ⟨published, before.length + 1, last⟩) ∨
        ∃ last, AllFail now origins disk last ∧
          firstAvailable now origins disk = ⟨.bundled, origins.length, last⟩) ∧
      (StartsLocally options.cachePath none disk now (loadLocal options network disk now) ∧
        (loadLocal options network disk now).1.loads = 0) ∧
      (options.offline = true →
        (StartsLocally options.cachePath none disk now (load options network disk now) ∧
          (load options network disk now).1.loads = 0) ∧
        StartsLocally options.cachePath none disk now (start options network disk now) ∧
          (start options network disk now).1.loads = 0) ∧
      (options.offline = false →
        ∀ e, network options.remoteUrl options.fetchLimit 0 = .error e →
          StartsLocally options.cachePath (some options.cacheTtl) disk now
            (load options network disk now) ∧
          StartsLocally options.cachePath (some options.cacheTtl) disk now
            (start options network disk now)) := by
  refine ⟨firstAvailable_cases now origins disk, ?_, fun offline => ?_, fun online e failed => ?_⟩
  · exact startsLocally_ofStart { options with offline := true } options rfl network disk now
  · have loaded := startsLocally_ofStart options options offline network disk now
    refine ⟨loaded, loaded.1.startTicking, ?_⟩
    obtain ⟨tick, ticking⟩ := startTicking_eq (load options network disk now).1 now
    have loads := congrArg Service.loads ticking
    exact loads.trans loaded.2
  · have loaded := startsLocally_load online failed disk now
    exact ⟨loaded, loaded.startTicking⟩

/-- A list of one model on disk, a day and some hours old, and a server that answers nothing. -/
theorem starts_from_first_origin_expired :
    ∃ table disk, table.size = 1 ∧
      (loadLocal { Options.default "/" with cachePath := some "/prices.json" }
        (fun _ _ _ => .error .offline) disk (.ofSeconds 100000)).1.active =
          ⟨table, some .epoch⟩ ∧
      (load { Options.default "/" with cachePath := some "/prices.json" }
        (fun _ _ _ => .error .offline) disk (.ofSeconds 100000)).1.active = .bundled := by
  generalize content_eq :
    Bytes.ofText "\x7b\"timestamp\":0,\"data\":\x7b\"gpt-5\":\x7b\x7d\x7d\x7d" = content
  obtain ⟨disk, read⟩ : ∃ disk : Disk, disk.read "/prices.json" = .ok content := by
    refine ⟨⟨.directory [("prices.json", .file content)], []⟩, toOption_eq_some_iff.1 ?_⟩
    rw [← content_eq]
    decide +kernel
  have parsed : (CacheFile.parse content).toOption.map (·.fetched) = some .epoch := by
    rw [← content_eq]
    decide +kernel
  have accepted : ((CacheFile.parse content).toOption.bind fun list =>
      (Table.read list.document).toOption.map Table.size) = some 1 := by
    rw [← content_eq]
    decide +kernel
  have holds : ∃ table, table.size = 1 ∧ (CacheFile.mk "/prices.json").Holds disk table .epoch := by
    obtain ⟨⟨document, fetched⟩, isList, rfl⟩ := Option.map_eq_some_iff.1 parsed
    rw [isList, Option.bind_some] at accepted
    obtain ⟨table, isTable, size⟩ := Option.map_eq_some_iff.1 accepted
    exact ⟨table, size, content, document, read, toOption_eq_some_iff.1 isList,
      toOption_eq_some_iff.1 isTable⟩
  obtain ⟨table, size, holds⟩ := holds
  obtain ⟨-, here, -, online⟩ := starts_from_first_origin []
    { Options.default "/" with cachePath := some "/prices.json" } (fun _ _ _ => .error .offline)
    disk (.ofSeconds 100000)
  refine ⟨table, disk, size, here.1.prices.unique (.cached rfl holds ?_),
    (online rfl _ rfl).1.prices.unique (.bundled ?_)⟩
  · rintro ⟨limit, ⟨⟩, -⟩
  · intro path table' fetched' path_eq holds'
    cases path_eq
    obtain ⟨-, rfl⟩ := holds.unique holds'
    exact ⟨_, rfl, by decide⟩

end Service

end TokenTariff
