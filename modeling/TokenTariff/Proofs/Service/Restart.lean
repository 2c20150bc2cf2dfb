import TokenTariff.Proofs.CacheFile
import TokenTariff.Proofs.Tariff.Feed
import TokenTariff.Service
/-!
# Restarts from the file on disk

A price list goes from a server to the file on disk, and from there into a service that starts
without asking the server. Three readers look at it on the way: the one that checks the answer of
the server, the one that copies it into the file, and the one that makes a table of it.

* `checkDocument_eq_ok_iff` gives what the first one accepts;
* `Service.ofStart_of_file` is a start from a file that is read;
* `Service.restart_after_save` is the whole way.
-/

namespace TokenTariff
set_option autoImplicit false

/-! ## Readers of a price list -/

theorem checkDocument_eq_ok_iff {document : Bytes} :
    checkDocument document = .ok () ↔
      ∃ members, Json.whole Json.objectMembers document = .ok members := by
  rw [checkDocument]
  cases Json.whole Json.objectMembers document with
  | error e => exact ⟨nofun, nofun⟩
  | ok members => exact ⟨fun _ => ⟨members, rfl⟩, fun _ => rfl⟩

theorem Published.ofFetched_of_read {document : Bytes} {table : Table}
    (h : Table.read document = .ok table) (updated : Option Instant) :
    Published.ofFetched ⟨document, updated⟩ = .ok ⟨table, updated⟩ := by
  rw [ofFetched, h]

/-! ## Starts from the file -/

theorem Origin.load_of_file {cache : CacheFile} {disk : Disk} {now fetched : Instant}
    {document : Bytes} {table : Table} (loaded : cache.load disk none now = .ok ⟨document, fetched⟩)
    (read : Table.read document = .ok table) :
    Origin.load disk now (.cache cache none) = (.ok ⟨table, some fetched⟩, disk) := by
  rw [Origin.load, Origin.loadCache, loaded]
  exact congrArg (·, disk) (Published.ofFetched_of_read read _)

namespace Service

/-- A start whose first origin is a file that is read. -/
theorem ofStart_of_file {cache : CacheFile} {disk : Disk} {now fetched : Instant}
    {document : Bytes} {table : Table} (loaded : cache.load disk none now = .ok ⟨document, fetched⟩)
    (read : Table.read document = .ok table) (origins : List Origin) (options : Options)
    (network : Network) :
    (ofStart (.cache cache none :: origins) options network disk now).1.active =
      ⟨table, some fetched⟩ := by
  rw [ofStart, firstAvailable, Origin.load_of_file loaded read]

theorem origins_offline (options : Options) {path : String} (offline : options.offline = true)
    (path_eq : options.cachePath = some path) (network : Network) :
    options.origins network = [.cache ⟨path⟩ none, .bundled] := by
  simp [Options.origins, Options.remote, offline, path_eq]

/-- A document is accepted by a server's reader if and only if it has a table. If it has one, it can
be saved as far as the disk allows it, and a service that starts from the file without asking the
server has that table, with the second in which the document was fetched. -/
theorem restart_after_save (cache : CacheFile) (document : Bytes) (fetched : Instant)
    (range : CacheFile.isInstant fetched.seconds = true) :
    (checkDocument document = .ok () ↔ ∃ table, Table.read document = .ok table) ∧
      ∀ table, Table.read document = .ok table →
        (∀ disk e, (cache.save disk document fetched).2 ≠ .error (.notJson e)) ∧
        ∀ disk saved, cache.save disk document fetched = (saved, .ok ()) →
          ∀ later now, later.find cache.path = saved.find cache.path →
            (∃ document', cache.load later none now = .ok ⟨document', .ofSeconds fetched.seconds⟩ ∧
              Table.read document' = .ok table) ∧
            ∀ options network, options.cachePath = some cache.path →
              (options.offline = true → (load options network later now).1.active =
                ⟨table, some (.ofSeconds fetched.seconds)⟩) ∧
              (loadLocal options network later now).1.active =
                ⟨table, some (.ofSeconds fetched.seconds)⟩ := by
  refine ⟨?_, fun table read => ?_⟩
  · rw [checkDocument_eq_ok_iff]
    constructor
    · rintro ⟨members, h⟩
      exact ⟨_, Table.read_eq_ok_iff.2 ⟨members, h, rfl⟩⟩
    · rintro ⟨table, read⟩
      obtain ⟨members, h, -⟩ := Table.read_eq_ok_iff.1 read
      exact ⟨members, h⟩
  · obtain ⟨members, h, rfl⟩ := Table.read_eq_ok_iff.1 read
    refine ⟨fun disk e => CacheFile.save_ne_notJson h cache disk fetched e, ?_⟩
    intro disk saved written later now kept
    obtain ⟨document', h', loaded⟩ := CacheFile.load_of_save h range written kept
    have read' : Table.read document' = .ok (.ofFeed members) :=
      Table.read_eq_ok_iff.2 ⟨members, h', rfl⟩
    refine ⟨⟨document', loaded now, read'⟩, fun options network path_eq => ⟨fun offline => ?_, ?_⟩⟩
    · rw [load, origins_offline options offline path_eq]
      exact ofStart_of_file (loaded now) read' _ _ _
    · rw [loadLocal, origins_offline { options with offline := true } rfl path_eq]
      exact ofStart_of_file (loaded now) read' _ _ _

/-- A list between blanks, fetched in the middle of a second. -/
theorem restart_after_save_between_blanks :
    ∃ table saved, table.size = 1 ∧
      CacheFile.save ⟨"/prices.json"⟩ (.empty []) (Bytes.ofText " \x7b\"gpt-5\":\x7b\x7d\x7d\n")
        ⟨10, 500, rfl⟩ = (saved, .ok ()) ∧
      (loadLocal { Options.default "/" with cachePath := some "/prices.json" }
        (fun _ _ _ => .error .offline) saved .epoch).1.active = ⟨table, some (.ofSeconds 10)⟩ := by
  generalize document_eq : Bytes.ofText " \x7b\"gpt-5\":\x7b\x7d\x7d\n" = document
  have accepted : ∃ table, Table.read document = .ok table ∧ table.size = 1 := by
    have size : (Table.read document).toOption.map Table.size = some 1 := by
      rw [← document_eq]
      decide +kernel
    obtain ⟨table, read, size⟩ := Option.map_eq_some_iff.1 size
    exact ⟨table, toOption_eq_some_iff.1 read, size⟩
  have written : (CacheFile.save ⟨"/prices.json"⟩ (.empty []) document
      ⟨10, 500, rfl⟩).2.toOption = some () := by
    rw [← document_eq]
    decide +kernel
  obtain ⟨table, read, size⟩ := accepted
  generalize save_eq : CacheFile.save ⟨"/prices.json"⟩ (.empty []) document ⟨10, 500, rfl⟩ =
    result at written
  obtain ⟨saved, result⟩ := result
  cases toOption_eq_some_iff.1 written
  obtain ⟨-, kept⟩ := restart_after_save ⟨"/prices.json"⟩ document ⟨10, 500, rfl⟩ rfl
  obtain ⟨-, started⟩ := (kept table read).2 _ saved save_eq saved .epoch rfl
  exact ⟨table, saved, size, rfl, (started _ _ rfl).2⟩

end Service

end TokenTariff
