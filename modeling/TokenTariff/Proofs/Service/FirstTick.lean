import TokenTariff.Proofs.Service.Startup
import TokenTariff.Proofs.Service.Ticks
/-!
# The first tick and the age of the price list

The first tick waits for what is left of the interval since the last update, and the file on disk is
refused as soon as its list is older than the time to live. Where the two spans are the same, they
are over at the same instant: a file that is refused leaves nothing to wait for, and one that is
taken something, so that a service that starts from the file ticks when the list would be refused.

* `Service.firstDelay_some`: the delay in terms of the span since the last update;
* `Service.nextTick_start_of_file`: the first tick of a service that starts from the file;
* `Service.first_tick_at_full_age`: both, and how they meet.
-/

namespace TokenTariff
set_option autoImplicit false

namespace Service
variable {last now fetched : Instant} {interval : Duration}

/-! ## The delay -/

theorem firstDelay_some (last now : Instant) (interval : Duration) :
    firstDelay (some last) now interval = if 0 ≤ now.nanosSince last then
      ⟨interval.nanos - (now.nanosSince last).toNat⟩ else interval := by
  simp only [firstDelay, Instant.elapsedSince?]
  by_cases past : 0 ≤ now.nanosSince last
  · rw [if_pos past, if_pos past]
  · rw [if_neg past, if_neg past]

theorem firstDelay_le (last : Option Instant) (now : Instant) (interval : Duration) :
    (firstDelay last now interval).nanos ≤ interval.nanos := by
  cases last with
  | none => exact Nat.zero_le _
  | some last =>
    rw [firstDelay_some]
    split
    · exact Nat.sub_le _ _
    · exact Nat.le_refl _

theorem nanosSince_add_firstDelay (past : 0 ≤ now.nanosSince last) (interval : Duration) :
    now.nanosSince last + (firstDelay (some last) now interval).nanos =
      max (now.nanosSince last) interval.nanos := by
  rw [firstDelay_some, if_pos past]
  simp only [Int.max_def]
  split <;> omega

theorem firstDelay_of_future (future : now.nanosSince last < 0) (interval : Duration) :
    firstDelay (some last) now interval = interval := by
  rw [firstDelay_some, if_neg (by omega)]

theorem firstDelay_of_old (old : (interval.nanos : Int) ≤ now.nanosSince last) :
    firstDelay (some last) now interval = .zero := by
  rw [firstDelay_some, if_pos (by omega), Duration.zero, Duration.mk.injEq]
  omega

theorem firstDelay_pos_iff (some_interval : 0 < interval.nanos) :
    0 < (firstDelay (some last) now interval).nanos ↔
      now.nanosSince last < interval.nanos := by
  rw [firstDelay_some]
  split
  · simp only
    omega
  · omega

/-- Outside of leap seconds, the delay is over when the last update has the age of the interval. -/
theorem totalNanos_add_firstDelay (h : now.inLeapSecond = false) (h' : last.inLeapSecond = false)
    (past : ¬ now.IsBefore last) (interval : Duration) :
    now.totalNanos + (firstDelay (some last) now interval).nanos =
      max now.totalNanos (last.totalNanos + interval.nanos) := by
  rw [Instant.isBefore_iff_of_ordinary h h', Int.not_lt] at past
  have span := Instant.nanosSince_of_ordinary h h'
  have waits := nanosSince_add_firstDelay (show 0 ≤ now.nanosSince last by omega) interval
  omega

/-! ## Starts from the file -/

/-- A service that starts from the file takes its time, and the first tick counts from it. -/
theorem nextTick_start_of_file {options : Options} (network : Network) {disk : Disk}
    {path : String} {list : CachedList} {table : Table} (online : options.offline = false)
    (path_eq : options.cachePath = some path)
    (loaded : (CacheFile.mk path).load disk (some options.cacheTtl) now = .ok list)
    (read : Table.read list.document = .ok table) :
    let started := (start options network disk now).1
    started.active = ⟨table, some list.fetched⟩ ∧ started.remote.isSome = true ∧
      started.interval = options.refreshInterval ∧ started.nextTick =
        some (now.after (firstDelay (some list.fetched) now options.refreshInterval)) := by
  have origins : options.origins network =
      .cache ⟨path⟩ (some options.cacheTtl) ::
        (((options.remote network).map Origin.remote).toList ++ [.bundled]) := by
    simp [Options.origins, online, path_eq]
  have gives : Origin.Gives now disk (.cache ⟨path⟩ (some options.cacheTtl))
      ⟨table, some list.fetched⟩ disk := by
    have loads : Origin.Loads now disk (.cache ⟨path⟩ (some options.cacheTtl))
        (.ok ⟨list.document, some list.fetched⟩) disk :=
      Origin.loads_cache_iff.2 ⟨map_eq_ok_iff.2 ⟨list, loaded, rfl⟩, rfl⟩
    exact .loaded loads read
  have active : (load options network disk now).1.active = ⟨table, some list.fetched⟩ := by
    rw [load, ofStart, origins, firstAvailable_of_gives gives]
  have remote : (load options network disk now).1.remote.isSome = true := by
    simp [load, ofStart, Options.remote, online]
  have ticks := @Situation.nextTick_start ⟨(load options network disk now).1, disk⟩ rfl remote now
  obtain ⟨tick, ticking⟩ := startTicking_eq (load options network disk now).1 now
  rw [lastUpdate, active] at ticks
  refine ⟨?_, ?_, ?_, ticks⟩
  · exact (congrArg Service.active ticking).trans active
  · exact (congrArg (·.remote.isSome) ticking).trans remote
  · exact congrArg Service.interval ticking

/-- The first tick waits for what is left of the interval since the last update, or the whole
interval after an update of the future, unless a leap second at the end of a day has the two the
wrong way round. With the interval as time to live, a file that is refused as too old leaves nothing
to wait for, and one that is taken leaves something unless its list has just that age. A service
that starts from the file first ticks when its list has the age of the interval, or an interval from
now if the list is of the future. -/
theorem first_tick_at_full_age :
    (∀ now interval, firstDelay none now interval = .zero) ∧
    (∀ last now interval, (firstDelay last now interval).nanos ≤ interval.nanos) ∧
    (∀ last now interval, ¬ now.IsBefore last → ¬ last.LeapsInto now →
      now.nanosSince last + (firstDelay (some last) now interval).nanos =
          max (now.nanosSince last) interval.nanos ∧
        (now.inLeapSecond = false → last.inLeapSecond = false →
          now.totalNanos + (firstDelay (some last) now interval).nanos =
            max now.totalNanos (last.totalNanos + interval.nanos))) ∧
    (∀ last now interval, now.IsBefore last → ¬ now.LeapsInto last →
      firstDelay (some last) now interval = interval) ∧
    (∀ (cache : CacheFile) disk list now interval, cache.load disk none now = .ok list →
      0 < interval.nanos →
      (cache.Expires disk interval now → firstDelay (some list.fetched) now interval = .zero) ∧
        (cache.load disk (some interval) now = .ok list →
          now.nanosSince list.fetched ≠ interval.nanos →
            0 < (firstDelay (some list.fetched) now interval).nanos)) ∧
    ∀ options network disk path list table now, options.offline = false →
      options.cachePath = some path → options.cacheTtl = options.refreshInterval →
      (CacheFile.mk path).load disk (some options.cacheTtl) now = .ok list →
      Table.read list.document = .ok table →
      let started := start options network disk now
      started.1.active = ⟨table, some list.fetched⟩ ∧
        ∃ first, Situation.TicksFrom ⟨started.1, started.2⟩ first ∧
          (now.inLeapSecond = false →
            (¬ now.IsBefore list.fetched →
              first.totalNanos = list.fetched.totalNanos + options.refreshInterval.nanos) ∧
            (now.IsBefore list.fetched →
              first.totalNanos = now.totalNanos + options.refreshInterval.nanos)) := by
  refine ⟨fun _ _ => rfl, firstDelay_le, ?_, ?_, ?_, ?_⟩
  · intro last now interval past apart
    exact ⟨nanosSince_add_firstDelay (Instant.nanosSince_nonneg past apart) interval,
      fun h h' => totalNanos_add_firstDelay h h' past interval⟩
  · intro last now interval future apart
    exact firstDelay_of_future (Instant.nanosSince_neg future apart) interval
  · intro cache disk list now interval loaded some_interval
    obtain ⟨content, read, parsed, -⟩ := CacheFile.load_eq_ok_iff.1 loaded
    constructor
    · intro expires
      exact firstDelay_of_old ((CacheFile.expires_iff_of_parse read parsed).1 expires).le
    · intro taken age
      obtain ⟨-, -, -, fresh⟩ := CacheFile.load_eq_ok_iff.1 taken
      rw [expired_some_iff] at fresh
      exact (firstDelay_pos_iff some_interval).2 (by omega)
  · intro options network disk path list table now online path_eq same loaded read started
    obtain ⟨active, remote, interval, tick⟩ :=
      nextTick_start_of_file network online path_eq loaded read
    refine ⟨active, _, Situation.ticksFrom_of_nextTick tick remote, fun ordinary => ?_⟩
    obtain ⟨content, -, parsed, fresh⟩ := CacheFile.load_eq_ok_iff.1 loaded
    have ordinary' := CacheFile.ordinary_of_parse parsed
    rw [expired_some_iff, same, Instant.nanosSince_of_ordinary ordinary ordinary'] at fresh
    rw [Instant.totalNanos_after]
    constructor
    · intro past
      have := totalNanos_add_firstDelay ordinary ordinary' past options.refreshInterval
      omega
    · intro future
      have span := Instant.nanosSince_of_ordinary ordinary ordinary'
      rw [Instant.isBefore_iff_of_ordinary ordinary ordinary'] at future
      rw [firstDelay_of_future (by omega)]

/-- A list that is fetched at 1000 seconds, with an interval of 100 seconds. -/
theorem first_tick_at_full_age_of_list :
    let fetched := Instant.ofSeconds 1000
    let interval := Duration.ofSeconds 100
    let file := CacheFile.content (Bytes.ofText "\x7b\"gpt-5\":\x7b\x7d\x7d") fetched
    let disk : Disk := ⟨.directory [("list.json", .file file)], []⟩
    let options := { Options.default "/" with
      cachePath := some "/list.json", cacheTtl := interval, refreshInterval := interval }
    let started (now : Instant) := start options (fun _ _ _ => .error .offline) disk now
    firstDelay (some fetched) (.ofSeconds 999) interval = interval ∧
      firstDelay (some fetched) ⟨1100, 1, rfl⟩ interval = .zero ∧
      0 < (firstDelay (some fetched) ⟨1099, 999999999, rfl⟩ interval).nanos ∧
      ∃ first, first.totalNanos = 1100000000000 ∧
        Situation.TicksFrom ⟨(started (.ofSeconds 1001)).1, (started (.ofSeconds 1001)).2⟩ first := by
  intro fetched interval file disk options started
  have taken : Json.whole Json.takeRaw (Bytes.ofText "\x7b\"gpt-5\":\x7b\x7d\x7d") =
      .ok (Bytes.ofText "\x7b\"gpt-5\":\x7b\x7d\x7d") :=
    toOption_eq_some_iff.1 (by decide +kernel)
  have parsed : CacheFile.parse file = .ok ⟨_, fetched⟩ :=
    CacheFile.parse_content (Json.rawDocument_of_whole taken) rfl
  have loaded {ttl : Option Duration} {now : Instant} (fresh : ¬ Expired ttl now fetched) :
      (CacheFile.mk "/list.json").load disk ttl now = .ok ⟨_, fetched⟩ :=
    CacheFile.load_eq_ok_iff.2 ⟨file, CacheFile.read_list file, parsed, fresh⟩
  obtain ⟨table, isTable⟩ : ∃ table,
      Table.read (Bytes.ofText "\x7b\"gpt-5\":\x7b\x7d\x7d") = .ok table := by
    have accepted : (Table.read (Bytes.ofText "\x7b\"gpt-5\":\x7b\x7d\x7d")).toOption.isSome :=
      by decide +kernel
    obtain ⟨table, isTable⟩ := Option.isSome_iff_exists.1 accepted
    exact ⟨table, toOption_eq_some_iff.1 isTable⟩
  obtain ⟨-, -, -, future, onFile, starts⟩ := first_tick_at_full_age
  have untimed (now : Instant) := @loaded none now nofun
  refine ⟨future _ _ interval (by decide) (fun leaps => absurd leaps.leap (by decide)), ?_, ?_, ?_⟩
  · refine (onFile _ _ _ _ interval (untimed _) (by decide)).1 ?_
    rw [CacheFile.expires_iff_of_parse (CacheFile.read_list file) parsed]
    decide
  · refine (onFile _ _ _ _ interval (untimed _) (by decide)).2 (loaded ?_) (by decide)
    rw [expired_some_iff]
    decide
  · have fresh : ¬ Expired (some interval) (.ofSeconds 1001) fetched := by
      rw [expired_some_iff]
      decide
    obtain ⟨-, first, ticks, due⟩ := starts options _ disk "/list.json" _ table (.ofSeconds 1001)
      rfl rfl rfl (loaded fresh) isTable
    have full := (due rfl).1 (by decide)
    exact ⟨first, full.trans (by decide), ticks⟩

/-- In the leap second at the end of a day, an update of the next midnight seems to be half a second
old. -/
theorem first_delay_in_leap_second :
    let now : Instant := ⟨1483228799, 1500000000, rfl⟩
    let last := Instant.ofSeconds 1483228800
    now.IsBefore last ∧ firstDelay (some last) now (.ofSeconds 100) = ⟨99500000000⟩ ∧
      firstDelay (some last) now (.ofSeconds 100) ≠ .ofSeconds 100 := by
  decide

end Service

end TokenTariff
