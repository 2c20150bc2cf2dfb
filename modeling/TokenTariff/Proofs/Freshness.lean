import TokenTariff.Proofs.CacheFile
import TokenTariff.Proofs.Instants
/-!
# How long a price list on disk is fresh

The file keeps the second in which its price list was fetched, and a time to live refuses the list
as soon as more than that has passed since then, to the nanosecond. A list of the future is fresh at
any time to live, since the clock may have been wrong when it was fetched; only the leap second at
the end of a day makes one of the next second too old.

* `Expired`: whether more than the time to live has passed;
* `CacheFile.load_eq_ok_iff`, `CacheFile.load_some`: what is loaded, in terms of it;
* `CacheFile.KeepsWithin`: a list that is taken within every time to live;
* `CacheFile.keeps_within_ttl`: the lists of all files, and those that were saved.
-/

namespace TokenTariff
set_option autoImplicit false

open Json

/-- Whether an instant is further back than a time to live. -/
def Expired (ttl : Option Duration) (now fetched : Instant) : Prop :=
  ∃ limit ∈ ttl, (limit.nanos : Int) < now.nanosSince fetched

theorem expired_some_iff {ttl : Duration} {now fetched : Instant} :
    Expired (some ttl) now fetched ↔ (ttl.nanos : Int) < now.nanosSince fetched := by
  simp [Expired]

namespace CacheFile
variable {cache : CacheFile} {disk : Disk} {content : Bytes} {list : CachedList}

/-! ## Loads -/

theorem excessAge?_eq (fetched : Instant) (ttl : Duration) (now : Instant) :
    excessAge? fetched ttl now = if (ttl.nanos : Int) < now.nanosSince fetched then
      some ⟨(now.nanosSince fetched).toNat⟩ else none := by
  unfold excessAge? Instant.elapsedSince?
  by_cases past : 0 ≤ now.nanosSince fetched
  · rw [if_pos past, Option.filter_some]
    refine if_congr ?_ rfl rfl
    rw [decide_eq_true_eq, ← Int.ofNat_lt, Int.toNat_of_nonneg past]
  · rw [if_neg past, if_neg (by omega), Option.filter_none]

theorem excessAge?_bind_eq_none_iff {fetched now : Instant} {ttl : Option Duration} :
    (ttl.bind fun limit => excessAge? fetched limit now) = none ↔ ¬ Expired ttl now fetched := by
  unfold Expired
  cases ttl with
  | none => simp
  | some limit => simp [excessAge?_eq]

theorem load_eq_ok_iff {ttl : Option Duration} {now : Instant} :
    cache.load disk ttl now = .ok list ↔
      ∃ content, disk.read cache.path = .ok content ∧ parse content = .ok list ∧
        ¬ Expired ttl now list.fetched := by
  unfold load
  constructor
  · intro h
    split at h
    · cases h
    split at h
    · cases h
    next content read =>
    split at h
    · cases h
    next list' parsed =>
    split at h
    · cases h
    next fresh =>
      cases h
      exact ⟨content, read, parsed, excessAge?_bind_eq_none_iff.1 fresh⟩
  · rintro ⟨content, read, parsed, fresh⟩
    simp only [Disk.has_of_read read, read, parsed, excessAge?_bind_eq_none_iff.2 fresh,
      Bool.not_true, Bool.false_eq_true, if_false]

/-- A list that is too old is refused with its age. -/
theorem load_some (read : disk.read cache.path = .ok content) (parsed : parse content = .ok list)
    (ttl : Duration) (now : Instant) :
    cache.load disk (some ttl) now = if (ttl.nanos : Int) < now.nanosSince list.fetched then
      .error (.cacheExpired (hours ⟨(now.nanosSince list.fetched).toNat⟩)) else .ok list := by
  simp only [load, Disk.has_of_read read, read, parsed, Option.bind_some, excessAge?_eq,
    Bool.not_true, Bool.false_eq_true, if_false]
  by_cases old : (ttl.nanos : Int) < now.nanosSince list.fetched
  · rw [if_pos old, if_pos old]
  · rw [if_neg old, if_neg old]

/-- Whether the list in the file is refused as too old. -/
def Expires (cache : CacheFile) (disk : Disk) (ttl : Duration) (now : Instant) : Prop :=
  ∃ age, cache.load disk (some ttl) now = .error (.cacheExpired age)

theorem expires_iff_of_parse (read : disk.read cache.path = .ok content)
    (parsed : parse content = .ok list) {ttl : Duration} {now : Instant} :
    cache.Expires disk ttl now ↔ (ttl.nanos : Int) < now.nanosSince list.fetched := by
  rw [Expires, load_some read parsed]
  split
  · next old => exact iff_of_true ⟨_, rfl⟩ old
  · next fresh => exact iff_of_false nofun fresh

theorem fetched_of_parse (parsed : parse content = .ok list) : list.fetched.nanos = 0 := by
  obtain ⟨members, -, isList⟩ := bind_eq_ok_iff.1 parsed
  cases isList
  simp only [instantOf]
  split <;> rfl

theorem ordinary_of_parse (parsed : parse content = .ok list) :
    list.fetched.inLeapSecond = false := by
  simp [Instant.inLeapSecond, fetched_of_parse parsed, nanosPerSecond]

/-! ## Times to live -/

/-- The file has a list that is taken within every time to live, and refused as too old beyond
it. -/
structure KeepsWithin (cache : CacheFile) (disk : Disk) (list : CachedList) : Prop where
  untimed : ∀ now, cache.load disk none now = .ok list
  /-- A time to live refuses the list as too old, or does nothing. -/
  timed : ∀ ttl now, cache.load disk (some ttl) now = cache.load disk none now ∨
    cache.Expires disk ttl now
  expires_iff : ∀ ttl now,
    cache.Expires disk ttl now ↔ (ttl.nanos : Int) < now.nanosSince list.fetched
  /-- Outside of leap seconds its age is a difference of nanoseconds. -/
  ordinary : ∀ ttl now, now.inLeapSecond = false →
    (cache.Expires disk ttl now ↔ (ttl.nanos : Int) < now.totalNanos - list.fetched.totalNanos)
  future : ∀ ttl now, now.IsBefore list.fetched → ¬ now.LeapsInto list.fetched →
    ¬ cache.Expires disk ttl now
  longer : ∀ ttl longer now, ttl.nanos ≤ longer.nanos → ¬ cache.Expires disk ttl now →
    ¬ cache.Expires disk longer now
  /-- A list that was too old stays too old. -/
  later : ∀ ttl now later, now.seconds + 2 ≤ later.seconds ∨ now.inLeapSecond = false ∧
      later.inLeapSecond = false ∧ now.totalNanos ≤ later.totalNanos →
    cache.Expires disk ttl now → cache.Expires disk ttl later

theorem keepsWithin_of_parse (read : disk.read cache.path = .ok content)
    (parsed : parse content = .ok list) : cache.KeepsWithin disk list := by
  have untimed (now : Instant) : cache.load disk none now = .ok list :=
    load_eq_ok_iff.2 ⟨content, read, parsed, nofun⟩
  have refused {ttl : Duration} {now : Instant} :
      cache.Expires disk ttl now ↔ (ttl.nanos : Int) < now.nanosSince list.fetched :=
    expires_iff_of_parse read parsed
  have ordinary := ordinary_of_parse parsed
  constructor
  case untimed => exact untimed
  case expires_iff => exact fun _ _ => refused
  case timed =>
    intro ttl now
    by_cases old : (ttl.nanos : Int) < now.nanosSince list.fetched
    · exact .inr (refused.2 old)
    · rw [untimed, load_some read parsed, if_neg old]
      exact .inl rfl
  case ordinary =>
    intro ttl now here
    rw [refused, Instant.nanosSince_of_ordinary here ordinary]
  case future =>
    intro ttl now before apart
    have := Instant.nanosSince_neg before apart
    rw [refused]
    omega
  case longer =>
    intro ttl longer now le
    rw [refused, refused]
    omega
  case later =>
    intro ttl now later aged
    have := Instant.nanosSince_mono ordinary aged
    rw [refused, refused]
    omega

theorem KeepsWithin.load_iff (h : cache.KeepsWithin disk list) (ttl : Duration) {now : Instant}
    (apart : ¬ now.LeapsInto list.fetched) :
    (∃ taken, cache.load disk (some ttl) now = .ok taken) ↔
      ¬ list.fetched.IsBefore now ∨ now.nanosSince list.fetched ≤ ttl.nanos := by
  have refused := h.expires_iff ttl now
  rcases h.timed ttl now with same | expires
  · have fresh : ¬ cache.Expires disk ttl now := by
      rintro ⟨age, expires⟩
      rw [same, h.untimed] at expires
      cases expires
    refine iff_of_true ⟨list, same.trans (h.untimed now)⟩ (.inr ?_)
    rw [refused] at fresh
    omega
  · have old := refused.1 expires
    obtain ⟨age, error⟩ := expires
    refine iff_of_false (by simp [error]) (not_or.2 ⟨fun future => ?_, by omega⟩)
    -- the span is not positive up to the second of the list
    have := Instant.nanosSince_nonneg future apart
    rw [Instant.nanosSince_comm] at this
    omega

/-- Every file with a timestamp and a price list keeps the list within each time to live, counted
from the timestamp, or from the epoch if the timestamp is no instant. A list that was saved is
therefore taken from its second on until the time to live is over, and before it, except in a leap
second that leads into it. -/
theorem keeps_within_ttl (cache : CacheFile) :
    (∀ disk content n text, disk.read cache.path = .ok content →
      whole (CacheMembers.layout.read .none) content = .ok ⟨some n, some text⟩ →
        cache.KeepsWithin disk ⟨text, instantOf n⟩) ∧
    ∀ disk saved document t, isInstant t.seconds = true →
      cache.save disk document t = (saved, .ok ()) →
        (∃ text, IsDocument document text ∧
          cache.KeepsWithin saved ⟨text, .ofSeconds t.seconds⟩) ∧
        ∀ ttl now, ¬ now.LeapsInto (.ofSeconds t.seconds) →
          ((∃ list, cache.load saved (some ttl) now = .ok list) ↔
            ¬ (Instant.ofSeconds t.seconds).IsBefore now ∨
              now.nanosSince (.ofSeconds t.seconds) ≤ ttl.nanos) := by
  refine ⟨fun disk content n text read envelope => ?_,
    fun disk saved document t range written => ?_⟩
  · exact keepsWithin_of_parse read (parse_of_envelope envelope)
  · cases taken : whole takeRaw document with
    | error e =>
      rw [save, taken] at written
      cases written
    | ok text =>
      rw [save, taken] at written
      obtain ⟨-, read⟩ := Disk.read_of_find (find_of_writeContent written)
      have kept := keepsWithin_of_parse read (parse_content (rawDocument_of_whole taken) range)
      exact ⟨⟨text, whole_takeRaw_eq_ok_iff.1 taken, kept⟩, fun ttl now => kept.load_iff ttl⟩

theorem read_list (file : Bytes) :
    Disk.read ⟨.directory [("list.json", .file file)], []⟩ "/list.json" = .ok file :=
  rfl

/-- A timestamp that is no instant, and a save in the last nanosecond of a second. -/
theorem keeps_within_ttl_to_the_nanosecond :
    let cache := CacheFile.mk "/list.json"
    let document := Bytes.ofText "\x7b\x7d"
    (∃ disk, cache.load disk none .epoch = .ok ⟨document, .epoch⟩ ∧
      ¬ cache.Expires disk (.ofSeconds 10) (.ofSeconds 10) ∧
      cache.Expires disk (.ofSeconds 10) ⟨10, 1, rfl⟩) ∧
    ∃ saved, cache.save (.empty []) document ⟨100, 999999999, rfl⟩ = (saved, .ok ()) ∧
      (∃ list, cache.load saved (some (.ofSeconds 10)) (.ofSeconds 110) = .ok list) ∧
      ¬ ∃ list, cache.load saved (some (.ofSeconds 10)) ⟨110, 1, rfl⟩ = .ok list := by
  intro cache document
  have taken : whole takeRaw document = .ok document :=
    toOption_eq_some_iff.1 (by decide +kernel)
  have isText := rawDocument_of_whole taken
  constructor
  · let file := content document (.ofSeconds 0x7fffffffffffffff)
    let disk : Disk := ⟨.directory [("list.json", .file file)], []⟩
    have kept : cache.KeepsWithin disk ⟨document, .epoch⟩ :=
      (keeps_within_ttl cache).1 disk file 0x7fffffffffffffff document (read_list file)
        (whole_content isText (by decide) (by decide))
    refine ⟨disk, kept.untimed _, ?_, ?_⟩
    · rw [kept.expires_iff]
      decide
    · rw [kept.expires_iff]
      decide
  · have written : (cache.save (.empty []) document ⟨100, 999999999, rfl⟩).2 = .ok () :=
      toOption_eq_some_iff.1 (by decide +kernel)
    obtain ⟨-, loaded⟩ := (keeps_within_ttl cache).2 (.empty []) _ document ⟨100, 999999999, rfl⟩
      rfl (Prod.ext rfl written)
    refine ⟨_, Prod.ext rfl written, ?_, ?_⟩
    · rw [loaded _ _ (fun leaps => absurd leaps.leap (by decide))]
      decide
    · rw [loaded _ _ (fun leaps => absurd leaps.leap (by decide))]
      decide

/-- The leap second at the end of a day makes the list of the next midnight too old already, and one
within a day makes a list too old that is fresh again after it. -/
theorem expires_in_leap_second :
    let cache := CacheFile.mk "/list.json"
    let document := Bytes.ofText "\x7b\x7d"
    let midnight := Instant.ofSeconds 1483228800
    let disk : Disk := ⟨.directory [("list.json", .file (CacheFile.content document midnight))], []⟩
    let newYear : Instant := ⟨1483228799, 1500000000, rfl⟩
    let now : Instant := ⟨1483228859, 1500000000, rfl⟩
    let later := Instant.ofSeconds 1483228860
    (∀ now, cache.load disk none now = .ok ⟨document, midnight⟩) ∧
      newYear.IsBefore midnight ∧ cache.Expires disk ⟨400000000⟩ newYear ∧
      midnight.IsBefore now ∧ now.IsBefore later ∧
      cache.Expires disk (.ofSeconds 60) now ∧ ¬ cache.Expires disk (.ofSeconds 60) later := by
  intro cache document midnight disk newYear now later
  have taken : whole takeRaw document = .ok document :=
    toOption_eq_some_iff.1 (by decide +kernel)
  have kept : cache.KeepsWithin disk ⟨document, midnight⟩ :=
    keepsWithin_of_parse (read_list _) (parse_content (rawDocument_of_whole taken) rfl)
  refine ⟨kept.untimed, by decide, ?_, by decide, by decide, ?_, ?_⟩
  · rw [kept.expires_iff]
    decide
  · rw [kept.expires_iff]
    decide
  · rw [kept.expires_iff]
    decide

end CacheFile

end TokenTariff
