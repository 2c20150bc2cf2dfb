import TokenTariff.Proofs.CacheFile
import TokenTariff.Proofs.Directories
/-!
# Saves one after another

Documents are saved to one file, each with its time. A save of what is no JSON changes nothing at
all; any other is done, as long as there is room for the file. So the file has at each point the
document of the last save that was done, without the blanks around it, and is missing before the
first one.

* `CacheFile.IsJson`: the documents that can be saved;
* `CacheFile.saveEach`: the disk after some saves;
* `CacheFile.load_after_saves`: what is loaded afterwards.
-/

namespace TokenTariff
set_option autoImplicit false

open Json

namespace CacheFile
variable {cache : CacheFile} {disk : Disk}

/-! ## One save -/

/-- Whether a document is one text of JSON, which may have blanks around it. -/
def IsJson (document : Bytes) : Prop :=
  ∃ text, IsDocument document text

theorem save_of_not_isJson {document : Bytes} (h : ¬ IsJson document) (cache : CacheFile)
    (disk : Disk) (time : Instant) :
    ∃ e, cache.save disk document time = (disk, .error (.notJson e)) := by
  cases taken : whole takeRaw document with
  | error e =>
    refine ⟨e, ?_⟩
    rw [save, taken]
  | ok text => exact absurd ⟨text, whole_takeRaw_eq_ok_iff.1 taken⟩ h

/-- A save that is done leaves room for another, and leaves the text to be loaded. -/
theorem save_of_isDocument {document text : Bytes} (h : IsDocument document text)
    (room : disk.HasRoom cache.path) (time : Instant) :
    ∃ saved, cache.save disk document time = (saved, .ok ()) ∧ saved.HasRoom cache.path ∧
      (isInstant time.seconds = true →
        ∀ now, cache.load saved none now = .ok ⟨text, .ofSeconds time.seconds⟩) := by
  obtain ⟨saved, written, room'⟩ := Disk.writeWithin_of_hasRoom room (content text time)
  have done : cache.writeContent disk (content text time) = (saved, .ok ()) := by
    rw [writeContent, written]
    rfl
  refine ⟨saved, ?_, room', fun range => ?_⟩
  · rw [save, whole_takeRaw_eq_ok_iff.2 h]
    exact done
  · obtain ⟨-, -, -, -, isText, -⟩ := h
    exact load_of_find (find_of_writeContent done) (parse_content isText range)

/-! ## Runs of saves -/

/-- The disk after saves one after another, each of a document with its time. -/
def saveEach (cache : CacheFile) (disk : Disk) : List (Bytes × Instant) → Disk
  | [] => disk
  | (document, time) :: saves => saveEach cache (cache.save disk document time).1 saves

theorem saveEach_append (cache : CacheFile) (saves later : List (Bytes × Instant)) (disk : Disk) :
    cache.saveEach disk (saves ++ later) = cache.saveEach (cache.saveEach disk saves) later := by
  induction saves generalizing disk with
  | nil => rfl
  | cons save saves ih => exact ih _

theorem saveEach_of_not_isJson {saves : List (Bytes × Instant)}
    (refused : ∀ save ∈ saves, ¬ IsJson save.1) : cache.saveEach disk saves = disk := by
  induction saves with
  | nil => rfl
  | cons save saves ih =>
    obtain ⟨first, others⟩ := List.forall_mem_cons.1 refused
    obtain ⟨e, kept⟩ := save_of_not_isJson first cache disk save.2
    rw [saveEach, kept]
    exact ih others

theorem hasRoom_saveEach (room : disk.HasRoom cache.path) (saves : List (Bytes × Instant)) :
    (cache.saveEach disk saves).HasRoom cache.path := by
  induction saves generalizing disk with
  | nil => exact room
  | cons save saves ih =>
    rw [saveEach]
    -- a save that is done leaves room, and one that is refused leaves everything
    by_cases json : IsJson save.1
    · obtain ⟨text, isDocument⟩ := json
      obtain ⟨saved, done, room', -⟩ := save_of_isDocument isDocument room save.2
      rw [done]
      exact ih room'
    · obtain ⟨e, kept⟩ := save_of_not_isJson json cache disk save.2
      rw [kept]
      exact ih room

/-- After the last document that is JSON, nothing more is changed. -/
theorem load_saveEach (room : disk.HasRoom cache.path) (before : List (Bytes × Instant))
    {later : List (Bytes × Instant)} {document text : Bytes} {time : Instant}
    (h : IsDocument document text) (refused : ∀ save ∈ later, ¬ IsJson save.1)
    (range : isInstant time.seconds = true) (now : Instant) :
    cache.load (cache.saveEach disk (before ++ (document, time) :: later)) none now =
      .ok ⟨text, .ofSeconds time.seconds⟩ := by
  obtain ⟨saved, done, -, loaded⟩ := save_of_isDocument h (hasRoom_saveEach room before) time
  rw [saveEach_append, saveEach, done, saveEach_of_not_isJson refused]
  exact loaded range now

theorem load_of_absent (absent : disk.has cache.path = false) (ttl : Option Duration)
    (now : Instant) : cache.load disk ttl now = .error (.cacheMissing cache.path) := by
  rw [load, absent]
  rfl

/-- Starting without the file, where there is room for one: after any saves, another save of what is
no JSON is refused as such, with the disk as it was, and any other save is done. What is loaded
then is the text of the last document that was JSON, without the blanks around it and with the
second of its save, or nothing if no document was JSON. -/
theorem load_after_saves (absent : disk.has cache.path = false) (room : disk.HasRoom cache.path)
    (saves : List (Bytes × Instant)) :
    let after := cache.saveEach disk saves
    (∀ document time,
      (¬ IsJson document → ∃ e, cache.save after document time = (after, .error (.notJson e))) ∧
        (IsJson document → ∃ saved, cache.save after document time = (saved, .ok ()))) ∧
    ((∀ save ∈ saves, ¬ IsJson save.1) → after = disk ∧
      ∀ now, cache.load after none now = .error (.cacheMissing cache.path)) ∧
    ∀ before document time later text, saves = before ++ (document, time) :: later →
      IsDocument document text → (∀ save ∈ later, ¬ IsJson save.1) →
        isInstant time.seconds = true →
          ∀ now, cache.load after none now = .ok ⟨text, .ofSeconds time.seconds⟩ := by
  intro after
  refine ⟨fun document time => ⟨fun refused => ?_, ?_⟩, fun refused => ?_, ?_⟩
  · exact save_of_not_isJson refused cache after time
  · rintro ⟨text, isDocument⟩
    obtain ⟨saved, done, -⟩ := save_of_isDocument isDocument (hasRoom_saveEach room saves) time
    exact ⟨saved, done⟩
  · have kept : after = disk := saveEach_of_not_isJson refused
    rw [kept]
    exact ⟨rfl, load_of_absent absent none⟩
  · rintro before document time later text rfl isDocument refused range now
    exact load_saveEach room before isDocument refused range now

/-- A list with a single surrogate and a number beyond all doubles, and then half an object. -/
theorem load_after_saves_refused :
    (CacheFile.mk "/prices/list.json").load
      ((CacheFile.mk "/prices/list.json").saveEach (.empty [])
        [(Bytes.ofText " [\"\\ud800\", 1e999999]\n", ⟨10, 500, rfl⟩),
          (Bytes.ofText "\x7b", .ofSeconds 20)]) none .epoch =
      .ok ⟨Bytes.ofText "[\"\\ud800\", 1e999999]", .ofSeconds 10⟩ := by
  have room : Disk.HasRoom (.empty []) "/prices/list.json" := by
    refine ⟨(Disk.makeAround (.empty []) "/prices/list.json").1, ["prices", "list.json"],
      Prod.ext rfl (toOption_eq_some_iff.1 ?_), toOption_eq_some_iff.1 ?_, ?_, ?_, ?_⟩
    · decide +kernel
    · decide +kernel
    · decide +kernel
    · decide +kernel
    · rintro ⟨entries, there⟩
      have none : ((Disk.makeAround (.empty []) "/prices/list.json").1.root.find?
          ["prices", "list.json"]).isNone = true := by decide +kernel
      rw [there] at none
      cases none
  have absent : Disk.has (.empty []) "/prices/list.json" = false := by decide +kernel
  have taken : IsDocument (Bytes.ofText " [\"\\ud800\", 1e999999]\n")
      (Bytes.ofText "[\"\\ud800\", 1e999999]") := by
    refine whole_takeRaw_eq_ok_iff.1 (toOption_eq_some_iff.1 ?_)
    decide +kernel
  have refused : ¬ IsJson (Bytes.ofText "\x7b") := by
    rintro ⟨text, isDocument⟩
    have none : (whole takeRaw (Bytes.ofText "\x7b")).toOption = none := by decide +kernel
    rw [whole_takeRaw_eq_ok_iff.2 isDocument] at none
    cases none
  obtain ⟨-, -, loaded⟩ := load_after_saves absent room
    [(Bytes.ofText " [\"\\ud800\", 1e999999]\n", ⟨10, 500, rfl⟩),
      (Bytes.ofText "\x7b", .ofSeconds 20)]
  refine loaded [] _ _ [(Bytes.ofText "\x7b", .ofSeconds 20)] _ rfl taken ?_ rfl .epoch
  intro save mem
  rw [List.mem_singleton.1 mem]
  exact refused

end CacheFile

end TokenTariff
