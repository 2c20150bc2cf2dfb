import TokenTariff.CacheFile
import TokenTariff.Proofs.FileTree
import TokenTariff.Proofs.Json.SpanEnds
import TokenTariff.Proofs.Json.Written
/-!
# What the file on disk holds

An object with a second and a price list is read as these, with its members in any order and any
others between them (`whole_of_recordText`). The content that is written for a text of JSON is one,
so that it is read back as that text with the second in which it was fetched (`parse_content`). A
file that was saved has a document with the same members as the one that was given (`load_of_save`).
-/

namespace TokenTariff
set_option autoImplicit false

namespace CacheFile
open Json

/-! ## What is read -/

/-- How the members of the file tell a second and a price list. -/
def forms (n : Int) (text : Bytes) : List FieldForm :=
  [⟨"timestamp", (· = Bytes.ofText (toString n)), False⟩, ⟨"data", (· = text), False⟩]

/-- The members of the file as far as their names were read. -/
def membersOf (n : Int) (text : Bytes) (names : List String) : CacheMembers where
  timestamp := told names "timestamp" n
  data := told names "data" text

theorem follows {n : Int} (low : -0x8000000000000000 ≤ n) (high : n < 0x8000000000000000)
    {text : Bytes} (h : RawDocument text) :
    CacheMembers.layout.Follows (forms n text) (membersOf n text) := by
  have raw : Reads takeRaw (· = text) text := by
    refine .of_skip takes_takeRaw.skip ?_
    rintro _ rest rfl stops
    exact takeRaw_append h stops
  refine .of_names rfl ?_ fun name other done => ?_
  · simp only [forms, List.forall_mem_cons]
    refine ⟨.of_told (reads_integer low high) rfl (fun _ => rfl) fun done => ?_,
      .of_told raw rfl (fun _ => rfl) fun done => ?_, nofun⟩
    all_goals simp [membersOf, told_cons_self, told_cons_of_ne]
  · simp only [forms, List.forall_mem_cons] at other
    obtain ⟨timestamp, data, -⟩ := other
    rw [membersOf, told_cons_of_ne timestamp.symm, told_cons_of_ne data.symm, membersOf]

/-- Every object with a second of 64 bits and a price list is read as these. -/
theorem whole_of_recordText {n : Int} (low : -0x8000000000000000 ≤ n)
    (high : n < 0x8000000000000000) {text : Bytes} (h : RawDocument text) {content : Bytes}
    (around : Around (RecordText (forms n text)) content) :
    whole (CacheMembers.layout.read .none) content = .ok ⟨some n, some text⟩ := by
  have reads : Reads (CacheMembers.layout.read .none) (RecordText (forms n text))
      ⟨some n, some text⟩ := by
    refine .of_skip (Layout.skip _ _) ?_
    rintro object rest ⟨members, enclosed, tells⟩ -
    have there := tells.missing
    simp only [forms, List.forall_mem_cons, imp_false, not_not] at there
    obtain ⟨timestamp, data, -⟩ := there
    have both : membersOf n text (members.map Prod.fst).reverse = ⟨some n, some text⟩ := by
      rw [membersOf, told_of_mem (List.mem_reverse.2 timestamp),
        told_of_mem (List.mem_reverse.2 data)]
    have read := Layout.read_of_tells (follows low high h) enclosed tells (by rw [both]; rfl) rest
    rwa [both] at read
  exact reads.whole around

/-! ## What is written -/

theorem content_eq (text : Bytes) (t : Instant) :
    content text t = openObject :: quoteMark :: (Bytes.ofText "timestamp\"" ++
      colon :: (Bytes.ofText (toString t.seconds) ++
        comma :: quoteMark :: (Bytes.ofText "data\"" ++ colon :: (text ++ [closeObject])))) := by
  have front : Bytes.ofText "\x7b\"timestamp\":" =
      openObject :: quoteMark :: (Bytes.ofText "timestamp\"" ++ [colon]) := by decide
  have middle : Bytes.ofText ",\"data\":" =
      comma :: quoteMark :: (Bytes.ofText "data\"" ++ [colon]) := by decide
  have back : Bytes.ofText "\x7d" = [closeObject] := by decide
  rw [content, Bytes.ofText_append, Bytes.ofText_append, front, middle, back]
  simp

theorem recordText_content (text : Bytes) (t : Instant) :
    RecordText (forms t.seconds text) (content text t) := by
  have distinct : ((forms t.seconds text).map FieldForm.name).Nodup :=
    show ["timestamp", "data"].Nodup by decide
  have written : WritesOut (forms t.seconds text)
      [("timestamp", Bytes.ofText (toString t.seconds)), ("data", text)] :=
    .given rfl (.given rfl .nil)
  have timestamp := @namedText "timestamp" (Bytes.ofText "timestamp\"")
    (Bytes.ofText (toString t.seconds)) [] [] (stringText_of_stringBody (by decide +kernel)) .nil .nil
  have data := @namedText "data" (Bytes.ofText "data\"") text [] []
    (stringText_of_stringBody (by decide +kernel)) .nil .nil
  have enclosed : Enclosed .object NamedText _ _ :=
    .filled .nil (.more timestamp .nil .nil (.last data .nil))
  refine ⟨_, ?_, written.tells distinct⟩
  rw [content_eq]
  simpa [Composite.opening, Composite.closing] using enclosed

/-- What is written is read back, with any second that has 64 bits. -/
theorem whole_content {text : Bytes} (h : RawDocument text) {t : Instant}
    (low : -0x8000000000000000 ≤ t.seconds) (high : t.seconds < 0x8000000000000000) :
    whole (CacheMembers.layout.read .none) (content text t) =
      .ok ⟨some t.seconds, some text⟩ :=
  whole_of_recordText low high h (.alone (recordText_content text t))

theorem parse_of_envelope {content text : Bytes} {n : Int}
    (h : whole (CacheMembers.layout.read .none) content = .ok ⟨some n, some text⟩) :
    parse content = .ok ⟨text, instantOf n⟩ := by
  rw [parse, h]
  rfl

theorem parse_content {text : Bytes} (h : RawDocument text) {t : Instant}
    (range : isInstant t.seconds = true) :
    parse (content text t) = .ok ⟨text, .ofSeconds t.seconds⟩ := by
  have bounds := range
  simp only [isInstant, Bool.and_eq_true, decide_eq_true_eq] at bounds
  rw [parse_of_envelope (whole_content h (by omega) (by omega)), instantOf, if_pos range]

/-! ## Saving and loading -/

theorem writeContent_ne_notJson {cache : CacheFile} {disk : Disk} {content : Bytes}
    {e : Json.Error} : (cache.writeContent disk content).2 ≠ .error (.notJson e) := by
  have failed {result : Except FileError Unit} :
      result.mapError .cacheUnreadable ≠ .error (PricingError.notJson e) := by
    cases result <;> exact nofun
  exact failed

theorem find_of_writeContent {cache : CacheFile} {disk disk' : Disk} {content : Bytes}
    (h : cache.writeContent disk content = (disk', .ok ())) :
    disk'.find cache.path = .ok (.file content) := by
  rw [writeContent, Prod.mk.injEq, mapError_eq_ok_iff] at h
  exact Disk.find_of_writeWithin (Prod.ext h.1 h.2)

theorem load_of_find {cache : CacheFile} {disk : Disk} {content : Bytes} {list : CachedList}
    (found : disk.find cache.path = .ok (.file content)) (parsed : parse content = .ok list)
    (now : Instant) : cache.load disk none now = .ok list := by
  obtain ⟨there, read⟩ := Disk.read_of_find found
  rw [load, there, read]
  simp only [Bool.not_true, Bool.false_eq_true, if_false, parsed, Option.bind_none]

section
variable {document : Bytes} {members : List (String × Value)}

/-- A document that is one object is not refused for what it is. -/
theorem save_ne_notJson (h : whole objectMembers document = .ok members) (cache : CacheFile)
    (disk : Disk) (t : Instant) (e : Json.Error) :
    (cache.save disk document t).2 ≠ .error (.notJson e) := by
  obtain ⟨text, -, raw, -⟩ := whole_takeRaw h
  rw [save, raw]
  exact writeContent_ne_notJson

/-- As long as a file that was saved stays as it is, it holds a document with the same members and
the second in which that was fetched. -/
theorem load_of_save (h : whole objectMembers document = .ok members) {cache : CacheFile}
    {disk saved later : Disk} {t : Instant} (range : isInstant t.seconds = true)
    (written : cache.save disk document t = (saved, .ok ()))
    (kept : later.find cache.path = saved.find cache.path) :
    ∃ document', whole objectMembers document' = .ok members ∧
      ∀ now, cache.load later none now = .ok ⟨document', .ofSeconds t.seconds⟩ := by
  obtain ⟨text, isText, raw, same⟩ := whole_takeRaw h
  rw [save, raw] at written
  have found := kept.trans (find_of_writeContent written)
  exact ⟨text, same, load_of_find found (parse_content isText range)⟩

end

end CacheFile

end TokenTariff
