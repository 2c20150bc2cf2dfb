import TokenTariff.Proofs.CommandLine.Words
/-!
# Command lines for every call

Whatever model, counts and settings are meant, there is a command line for them: the name of the
command and one word for each thing to be said, in any order, and those for the settings on either
side of the name (`parse_written`). As each word adds what it says, the findings on both sides tell
all the words there, in whatever order they came (`exists_tells`), and the counts and the settings
are read off from them (`tokenCounts_of_tells`, `settingsOf_of_tells`).

* `argumentsOf`: what has to be said for the cost of a model.
-/

namespace TokenTariff.CommandLine
set_option autoImplicit false

variable {model : String} {counts : TokenCounts} {settings : Settings}

/-! ## What has to be said -/

/-- What a command line has to say for the cost of a model. -/
def argumentsOf (model : String) (counts : TokenCounts) (settings : Settings) : List Argument :=
  [.model model, .count .input counts.input, .count .output counts.output,
    .count .cacheWrite counts.cacheWrite, .count .cacheRead counts.cacheRead] ++
  (counts.fiveMinuteWrite.map (Argument.count .fiveMinuteWrite)).toList ++
  (counts.oneHourWrite.map (Argument.count .oneHourWrite)).toList ++
  (if settings.json then [.switch .json] else []) ++
  (if settings.offline then [.switch .offline] else []) ++
  (if settings.debug then [.switch .debug] else []) ++
  (settings.pricingFile.map (Argument.text .pricingFile)).toList ++
  (settings.pricingUrl.map (Argument.text .pricingUrl)).toList

theorem subjects_optional {α : Type} (say : α → Argument) {subject : Argument.Subject}
    (about : ∀ x, (say x).subject = subject) (given : Option α) :
    ((given.map say).toList.map Argument.subject).Sublist [subject] := by
  cases given <;> simp [about]

theorem subjects_switched (on : Bool) (s : Switch) :
    ((if on then [Argument.switch s] else []).map Argument.subject).Sublist [.switch s] := by
  cases on <;> simp [Argument.subject]

/-- No two of the arguments are about one subject: the subjects are some of all that there are. -/
theorem nodup_argumentsOf (model : String) (counts : TokenCounts) (settings : Settings) :
    ((argumentsOf model counts settings).map Argument.subject).Nodup := by
  have always : ([.model model, .count .input counts.input, .count .output counts.output,
      .count .cacheWrite counts.cacheWrite, .count .cacheRead counts.cacheRead].map
        Argument.subject).Sublist
      [.model, .count .input, .count .output, .count .cacheWrite, .count .cacheRead] := .refl _
  have five := subjects_optional (.count .fiveMinuteWrite) (fun _ => rfl) counts.fiveMinuteWrite
  have hour := subjects_optional (.count .oneHourWrite) (fun _ => rfl) counts.oneHourWrite
  have json := subjects_switched settings.json .json
  have offline := subjects_switched settings.offline .offline
  have debug := subjects_switched settings.debug .debug
  have file := subjects_optional (.text .pricingFile) (fun _ => rfl) settings.pricingFile
  have url := subjects_optional (.text .pricingUrl) (fun _ => rfl) settings.pricingUrl
  have all := ((((((always.append five).append hour).append json).append offline).append
    debug).append file).append url
  simp only [← List.map_append] at all
  exact all.nodup (by decide)

theorem isClear_of_mem_argumentsOf (noFlag : model.toList.head? ≠ some '-')
    (nonempty : settings.pricingFile ≠ some "") {a : Argument}
    (mem : a ∈ argumentsOf model counts settings) : a.IsClear := by
  cases a with
  | switch s => trivial
  | text flag value =>
    rintro rfl rfl
    exact nonempty (by simpa [argumentsOf] using mem)
  | count flag n => trivial
  | model name =>
    have same : name = model := by simpa [argumentsOf] using mem
    exact same ▸ noFlag

/-! ## Reading all words -/

/-- A reader that takes each of some words as what it says comes to findings that tell them and all
that was told before. -/
theorem exists_tells_append {β : Type} (read : List String → Scan → β) {args told : List Argument}
    {given : Given} (step : ∀ a ∈ args, ∀ given told, Given.Tells given told →
      a.subject ∉ told.map Argument.subject → ∀ words,
        read (a.word :: words) ⟨given, none⟩ = read words ⟨a.addTo given, none⟩)
    (tells : given.Tells told) (distinct : ((args ++ told).map Argument.subject).Nodup) :
    ∃ given' : Given, given'.Tells (args ++ told) ∧ ∀ words,
      read (args.map Argument.word ++ words) ⟨given, none⟩ = read words ⟨given', none⟩ := by
  -- A word goes from those still to come to those that were told; all together stay the same.
  induction args generalizing given told with
  | nil => exact ⟨given, tells, fun _ => rfl⟩
  | cons a args ih =>
    have middle : (args ++ a :: told).Perm (a :: args ++ told) := List.perm_middle
    have new : a.subject ∉ told.map Argument.subject := by
      intro mem
      rw [List.cons_append, List.map_cons, List.nodup_cons, List.map_append] at distinct
      exact distinct.1 (List.mem_append_right _ mem)
    obtain ⟨given', tells', rest⟩ := ih (fun b mem => step b (List.mem_cons_of_mem a mem))
      (tells.add new) ((middle.map _).nodup_iff.2 distinct)
    refine ⟨given', tells'.perm middle, fun words => ?_⟩
    rw [List.map_cons, List.cons_append, step a List.mem_cons_self given told tells new, rest]

theorem exists_tells {β : Type} (read : List String → Scan → β) {args : List Argument}
    (step : ∀ a ∈ args, ∀ given told, Given.Tells given told →
      a.subject ∉ told.map Argument.subject → ∀ words,
        read (a.word :: words) ⟨given, none⟩ = read words ⟨a.addTo given, none⟩)
    (distinct : (args.map Argument.subject).Nodup) :
    ∃ given : Given, given.Tells args ∧ ∀ words,
      read (args.map Argument.word ++ words) .start = read words ⟨given, none⟩ := by
  have all := exists_tells_append read step Given.tells_empty (by rwa [List.append_nil])
  rwa [List.append_nil] at all

/-! ## From the findings -/

variable {front after : Given} {front' after' : List Argument}

theorem tokenCounts_of_tells (tells : after.Tells after')
    (all : ∀ flag n, .count flag n ∈ after' ↔ .count flag n ∈ argumentsOf model counts settings) :
    after.tokenCounts = counts := by
  have found (flag : CountFlag) (n : TokenCount) : after.counts.lookup flag = some n ↔
      .count flag n ∈ argumentsOf model counts settings :=
    (tells.counts flag n).trans (all flag n)
  have input : after.counts.lookup .input = some counts.input := by
    simp [found, argumentsOf]
  have output : after.counts.lookup .output = some counts.output := by
    simp [found, argumentsOf]
  have cacheWrite : after.counts.lookup .cacheWrite = some counts.cacheWrite := by
    simp [found, argumentsOf]
  have cacheRead : after.counts.lookup .cacheRead = some counts.cacheRead := by
    simp [found, argumentsOf]
  have fiveMinuteWrite : after.counts.lookup .fiveMinuteWrite = counts.fiveMinuteWrite :=
    Option.ext fun n => by simp [found, argumentsOf]
  have oneHourWrite : after.counts.lookup .oneHourWrite = counts.oneHourWrite :=
    Option.ext fun n => by simp [found, argumentsOf]
  simp only [Given.tokenCounts, input, output, cacheWrite, cacheRead, fiveMinuteWrite,
    oneHourWrite, Option.getD_some]

/-- A text is given on one side only, so that it does not matter which side is looked at first. -/
theorem lookup_or_eq_some_iff (tells : front.Tells front') (tells' : after.Tells after')
    (distinct : ((front' ++ after').map Argument.subject).Nodup)
    (flag : TextFlag) (value : String) :
    (after.texts.lookup flag).or (front.texts.lookup flag) = some value ↔
      .text flag value ∈ front' ++ after' := by
  rw [Option.or_eq_some_iff, tells.texts, tells'.texts, List.mem_append]
  constructor
  · rintro (mem | ⟨-, mem⟩)
    · exact .inr mem
    · exact .inl mem
  · rintro (mem | mem)
    · refine .inr ⟨Option.eq_none_iff_forall_ne_some.2 fun other has => ?_, mem⟩
      have mem' := (tells'.texts flag other).1 has
      rw [List.map_append, List.nodup_append] at distinct
      exact distinct.2.2 _ (List.mem_map_of_mem mem) _ (List.mem_map_of_mem mem') rfl
    · exact .inl mem

theorem settingsOf_of_tells (tells : front.Tells front') (tells' : after.Tells after')
    (distinct : ((front' ++ after').map Argument.subject).Nodup)
    (all : ∀ a, a ∈ front' ++ after' ↔ a ∈ argumentsOf model counts settings)
    (noPath : settings.cachePath = none) (noHours : settings.refreshHours = none) :
    settingsOf front after = settings := by
  have has (s : Switch) : (s ∈ front.switches || s ∈ after.switches : Bool) = true ↔
      .switch s ∈ argumentsOf model counts settings := by
    simp [tells.switches, tells'.switches, ← all]
  have text (flag : TextFlag) (value : String) :
      (after.texts.lookup flag).or (front.texts.lookup flag) = some value ↔
        .text flag value ∈ argumentsOf model counts settings :=
    (lookup_or_eq_some_iff tells tells' distinct flag value).trans (all _)
  have json : (.json ∈ front.switches || .json ∈ after.switches : Bool) = settings.json := by
    rw [Bool.eq_iff_iff, has]
    simp [argumentsOf]
  have offline : (.offline ∈ front.switches || .offline ∈ after.switches : Bool) =
      settings.offline := by
    rw [Bool.eq_iff_iff, has]
    simp [argumentsOf]
  have debug : (.debug ∈ front.switches || .debug ∈ after.switches : Bool) = settings.debug := by
    rw [Bool.eq_iff_iff, has]
    simp [argumentsOf]
  have file : (after.texts.lookup .pricingFile).or (front.texts.lookup .pricingFile) =
      settings.pricingFile := Option.ext fun value => by simp [text, argumentsOf]
  have url : (after.texts.lookup .pricingUrl).or (front.texts.lookup .pricingUrl) =
      settings.pricingUrl := Option.ext fun value => by simp [text, argumentsOf]
  simp only [settingsOf, json, offline, debug, file, url]
  rw [← noPath, ← noHours]

/-! ## Command lines -/

theorem parseFrom_cost (words : List String) (front : Given) :
    parseFrom ("cost" :: words) ⟨front, none⟩ =
      (parseCommand .cost words).map fun found => ⟨found.1, settingsOf front found.2⟩ := by
  have noFlag : takeFlagWord? .front "cost" ⟨front, none⟩ = none :=
    takeFlagWord?_of_no_dash (by decide) front
  have isCommand : commands.lookup "cost" = some .cost := by decide
  rw [parseFrom, if_neg (by decide), noFlag]
  simp only [if_neg (show "cost" ≠ helpWord by decide), isCommand]
  cases parseCommand .cost words <;> rfl

theorem parseCommand_of_tells {words : List String} (model : String)
    (taken : takeWords .cost words .start = .ok ⟨after, none⟩) (named : after.model = some model) :
    parseCommand .cost words = .ok (.cost model after.tokenCounts, after) := by
  have command : commandOf .cost after = .ok (.cost model after.tokenCounts) := by
    simp only [commandOf, named]
  rw [parseCommand, taken]
  show (commandOf .cost after >>= fun command => Except.ok (command, after)) = _
  rw [command]
  rfl

/-- Let a model not begin with a dash, and let the path of a file with prices, if one is named, not
be empty. Then a command line that has the name of the command and one word for each thing to be
said, in any order and those for the settings on either side of the name, is parsed to exactly this
model, these counts and these settings. The path of the file on disk and the interval cannot be
said. -/
theorem parse_written (model : String) (counts : TokenCounts) (settings : Settings)
    (noPath : settings.cachePath = none) (noHours : settings.refreshHours = none)
    (noFlag : model.toList.head? ≠ some '-') (nonempty : settings.pricingFile ≠ some "")
    (front after : List Argument) (isGlobal : ∀ a ∈ front, a.isGlobal = true)
    (each : (front ++ after).Perm (argumentsOf model counts settings)) :
    parse (front.map Argument.word ++ "cost" :: after.map Argument.word) =
      .ok ⟨.cost model counts, settings⟩ := by
  have distinct : ((front ++ after).map Argument.subject).Nodup :=
    (each.map _).nodup_iff.2 (nodup_argumentsOf model counts settings)
  have clear : ∀ a ∈ front ++ after, a.IsClear := fun a mem =>
    isClear_of_mem_argumentsOf noFlag nonempty (each.mem_iff.1 mem)
  have apart := distinct
  rw [List.map_append, List.nodup_append] at apart
  obtain ⟨distinctFront, distinctAfter, -⟩ := apart
  obtain ⟨front', tells, readFront⟩ := exists_tells parseFrom
    (fun a mem _ _ tells new words => parseFrom_word tells new
      (clear a (List.mem_append_left _ mem)) (isGlobal a mem) words) distinctFront
  obtain ⟨after', tells', readAfter⟩ := exists_tells (takeWords .cost)
    (fun a mem _ _ tells new words => takeWords_word tells new
      (clear a (List.mem_append_right _ mem)) words) distinctAfter
  have taken : takeWords .cost (after.map Argument.word) .start = .ok ⟨after', none⟩ := by
    have all := readAfter []
    rwa [List.append_nil] at all
  -- The model and the counts are all behind the name of the command.
  have all : ∀ a, a.isGlobal = false → (a ∈ after ↔ a ∈ argumentsOf model counts settings) := by
    intro a isLocal
    have notFront : a ∉ front := fun mem => by simp [isGlobal a mem] at isLocal
    rw [← each.mem_iff, List.mem_append, or_iff_right notFront]
  have named : after'.model = some model :=
    (tells'.model model).2 ((all _ rfl).2 (by simp [argumentsOf]))
  have counted : after'.tokenCounts = counts :=
    tokenCounts_of_tells tells' fun flag n => all _ rfl
  have set : settingsOf front' after' = settings :=
    settingsOf_of_tells tells tells' distinct (fun a => each.mem_iff) noPath noHours
  rw [parse, readFront, parseFrom_cost, parseCommand_of_tells model taken named, counted]
  show Except.ok (CommandLine.mk _ (settingsOf front' after')) = _
  rw [set]

/-- The least and the greatest count, an address of one dash, a path with an equals sign, and
settings on both sides. -/
theorem parse_written_extremes :
    let counts : TokenCounts := ⟨.zero, .clamp (-1), .clamp 7, .clamp 0x7FFFFFFFFFFFFFFF, none,
      some (.clamp (-0x8000000000000000))⟩
    let settings : Settings := ⟨true, true, false, some "a=b", some "-", none, none⟩
    let front : List Argument := [.text .pricingUrl "-", .switch .json]
    let after : List Argument :=
      [.count .oneHourWrite (.clamp (-0x8000000000000000)), .count .output (.clamp (-1)),
        .text .pricingFile "a=b", .model "gpt-4o", .count .cacheRead (.clamp 0x7FFFFFFFFFFFFFFF),
        .count .input .zero, .switch .offline, .count .cacheWrite (.clamp 7)]
    let words : List String :=
      ["--pricing-url=-", "--json", "cost", "--cache-1h=-9223372036854775808", "--output=-1",
        "--pricing-file=a=b", "gpt-4o", "--cache-read=9223372036854775807", "--input=0",
        "--offline", "--cache-create=7"]
    (front ++ after).Perm (argumentsOf "gpt-4o" counts settings) ∧
      parse words = .ok ⟨.cost "gpt-4o" counts, settings⟩ := by
  intro counts settings front after words
  have each : (front ++ after).Perm (argumentsOf "gpt-4o" counts settings) := by decide
  have written : front.map Argument.word ++ "cost" :: after.map Argument.word = words := by
    decide +kernel
  have parsed := parse_written "gpt-4o" counts settings rfl rfl (by decide) (by decide) front after
    (by decide) each
  rw [written] at parsed
  exact ⟨each, parsed⟩

end TokenTariff.CommandLine
