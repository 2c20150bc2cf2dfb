import TokenTariff.Proofs.Service.Restart
import TokenTariff.Proofs.Service.Runs
import TokenTariff.Proofs.Service.Startup
import TokenTariff.Proofs.Tariff.Feed
/-!
# Services without a model

A price list is any document that is one object, and an object without a model is one too: a start
takes it, and a refresh publishes it, and then the service knows no model at all. That is the only
way to lose the models. The bundled table has some, and what is no object is never taken.

* `Table.HasNoModel`: a document that is an object without a model;
* `Origin.Found` and `Load.InUse`: the document that a start takes, and the one that is in use after
  some loads, where `none` stands for the bundled price list;
* `Service.IsStart`: the ways in which a service starts from origins;
* `Situation.empty_iff_hasNoModel`: when a service knows no model.
-/

namespace TokenTariff
set_option autoImplicit false

/-! ## Documents and their tables -/

namespace Table

/-- A document that a table can be made of. -/
def IsObject (document : Bytes) : Prop :=
  ∃ members, Json.whole Json.objectMembers document = .ok members

/-- An object in which no member that counts is a model. -/
def HasNoModel (document : Bytes) : Prop :=
  ∃ members, Json.whole Json.objectMembers document = .ok members ∧
    ∀ name fields, LastUnder members name (.object fields) → name = documentationName

/-- The table of a document, or the bundled one. -/
inductive IsOf : Option Bytes → Table → Prop where
  | document {document : Bytes} {table : Table} (read : Table.read document = .ok table) :
      IsOf (some document) table
  | bundled : IsOf none .bundled

theorem isObject_iff {document : Bytes} :
    IsObject document ↔ ∃ table, read document = .ok table := by
  constructor
  · rintro ⟨members, h⟩
    exact ⟨_, read_eq_ok_iff.2 ⟨members, h, rfl⟩⟩
  · rintro ⟨table, h⟩
    obtain ⟨members, h, -⟩ := read_eq_ok_iff.1 h
    exact ⟨members, h⟩

theorem size_eq_zero_iff {table : Table} : table.size = 0 ↔ ∀ name, name ∉ table.listed := by
  have length : table.size = table.entries.names.length := by
    rw [size, Dictionary.size, Dictionary.names, List.length_map]
  rw [length, List.length_eq_zero_iff, List.eq_nil_iff_forall_not_mem]
  simp only [listed, List.mem_toFinset]

theorem size_of_read_eq_zero_iff {document : Bytes} {table : Table}
    (h : read document = .ok table) : table.size = 0 ↔ HasNoModel document := by
  obtain ⟨members, isMembers, rfl⟩ := read_eq_ok_iff.1 h
  rw [size_eq_zero_iff]
  simp only [mem_listed_ofFeed, HasNoModel, isMembers, Except.ok.injEq]
  constructor
  · intro none
    refine ⟨members, rfl, fun name fields last => ?_⟩
    by_contra model
    exact none name ⟨model, fields, last⟩
  · rintro ⟨_, rfl, none⟩ name ⟨model, fields, last⟩
    exact model (none name fields last)

theorem size_bundled_ne_zero : bundled.size ≠ 0 := by
  intro none
  have listed : "xai/grok-4" ∈ bundled.listed := by
    rw [bundled, ← mem_names_ofRates, Dictionary.mem_names_iff, Dictionary.get?_ofList]
    exact ⟨_, rfl⟩
  exact size_eq_zero_iff.1 none _ listed

theorem IsOf.size_eq_zero_iff {source : Option Bytes} {table : Table} (h : IsOf source table) :
    table.size = 0 ↔ ∃ document, source = some document ∧ HasNoModel document := by
  cases h with
  | document read => simp [size_of_read_eq_zero_iff read]
  | bundled => simp [size_bundled_ne_zero]

end Table

open Table Origin

/-! ## The document of a start -/

/-- What a start finds in a list of origins: the first document that is an object, after all origins
before it have failed, or else the bundled price list. -/
inductive Origin.Found (now : Instant) (disk : Disk) (origins : List Origin) :
    Option Bytes → Prop where
  | document {before after : List Origin} {origin : Origin} {between last : Disk}
      {fetched : Fetched}
      (split : origins = before ++ origin :: after) (failed : AllFail now before disk between)
      (loads : origin.Loads now between (.ok fetched) last) (object : IsObject fetched.document) :
      Found now disk origins (some fetched.document)
  | bundled {before after : List Origin} {between : Disk}
      (split : origins = before ++ .bundled :: after) (failed : AllFail now before disk between) :
      Found now disk origins none
  | nothing {last : Disk} (failed : AllFail now origins disk last) : Found now disk origins none

theorem Origin.fails_iff {now : Instant} {disk after : Disk} {origin : Origin} :
    origin.Fails now disk after ↔
      ∃ result, origin.Loads now disk result after ∧
        ∀ fetched, result = .ok fetched → ¬ IsObject fetched.document := by
  constructor
  · intro fails
    cases fails with
    | load loads => exact ⟨_, loads, nofun⟩
    | read loads unread =>
      refine ⟨_, loads, ?_⟩
      rintro fetched' ⟨⟩ object
      obtain ⟨table, read⟩ := isObject_iff.1 object
      rw [unread] at read
      cases read
  · rintro ⟨result, loads, none⟩
    cases result with
    | error e => exact .load loads
    | ok fetched =>
      cases read : Table.read fetched.document with
      | error e => exact .read loads read
      | ok table => exact absurd (isObject_iff.2 ⟨table, read⟩) (none fetched rfl)

theorem found_firstAvailable (now : Instant) (origins : List Origin) (disk : Disk) :
    ∃ source, Found now disk origins source ∧
      IsOf source (firstAvailable now origins disk).published.table := by
  rcases firstAvailable_cases now origins disk with
    ⟨before, origin, after, between, published, last, split, failed, gives, found⟩ |
    ⟨last, failed, found⟩
  · rw [found]
    cases gives with
    | loaded loads read =>
      exact ⟨_, .document split failed loads (isObject_iff.2 ⟨_, read⟩), .document read⟩
    | bundled => exact ⟨none, .bundled split failed, .bundled⟩
  · rw [found]
    exact ⟨none, .nothing failed, .bundled⟩

/-- The ways in which a service starts from a list of origins. -/
inductive Service.IsStart (now : Instant) (disk : Disk) : List Origin → Service × Disk → Prop where
  | ofOrigins (origins : List Origin) (remote : Option Remote) :
      IsStart now disk origins (ofOrigins origins remote disk now)
  | load (options : Options) (network : Network) :
      IsStart now disk (options.origins network) (load options network disk now)
  | loadLocal (options : Options) (network : Network) :
      IsStart now disk (Options.origins { options with offline := true } network)
        (loadLocal options network disk now)
  | start (options : Options) (network : Network) :
      IsStart now disk (options.origins network) (start options network disk now)

theorem Service.IsStart.active_eq {now : Instant} {disk : Disk} {origins : List Origin}
    {started : Service × Disk} (h : IsStart now disk origins started) :
    started.1.active = (firstAvailable now origins disk).published := by
  cases h with
  | ofOrigins origins remote => rfl
  | load options network => rfl
  | loadLocal options network => rfl
  | start options network =>
    obtain ⟨tick, ticking⟩ := startTicking_eq (Service.load options network disk now).1 now
    exact congrArg Service.active ticking

/-! ## The document after some loads -/

namespace Load

/-- The document that a load brings, if it can be published. -/
def Brings (load : Load) (document : Bytes) : Prop :=
  ∃ fetched, load.fetched = .ok fetched ∧ fetched.document = document ∧ IsObject document

theorem fails_iff {load : Load} : load.Fails ↔ ∀ document, ¬ load.Brings document := by
  constructor
  · rintro ⟨e, failed⟩ document ⟨fetched, loaded, rfl, object⟩
    obtain ⟨table, read⟩ := isObject_iff.1 object
    have published := published_eq_ok_iff.2 ⟨fetched, table, loaded, read, rfl⟩
    rw [failed] at published
    cases published
  · intro none
    cases published : load.published with
    | error e => exact ⟨e, published⟩
    | ok list =>
      obtain ⟨fetched, table, loaded, read, -⟩ := published_eq_ok_iff.1 published
      exact absurd ⟨fetched, loaded, rfl, isObject_iff.2 ⟨table, read⟩⟩ (none fetched.document)

/-- The document in use after some loads: the one of the last load that brings any, or else the one
that was in use before. -/
inductive InUse (startup : Option Bytes) (loads : List Load) : Option Bytes → Prop where
  | startup (failed : ∀ load ∈ loads, ∀ document, ¬ load.Brings document) :
      InUse startup loads startup
  | brought {before after : List Load} {load : Load} {document : Bytes}
      (split : loads = before ++ load :: after) (brings : load.Brings document)
      (failed : ∀ later ∈ after, ∀ document, ¬ later.Brings document) :
      InUse startup loads (some document)

theorem inUse_of_leave {source : Option Bytes} {startup active : Published} {loads : List Load}
    (h : Leave startup loads active) (isOf : IsOf source startup.table) :
    ∃ source', InUse source loads source' ∧ IsOf source' active.table := by
  cases h with
  | startup failed => exact ⟨source, .startup fun load mem => fails_iff.1 (failed load mem), isOf⟩
  | published split loaded read failed =>
    have object := isObject_iff.2 ⟨_, read⟩
    refine ⟨_, .brought split ⟨_, loaded, rfl, object⟩ fun later mem => ?_, .document read⟩
    exact fails_iff.1 (failed later mem)

end Load

/-! ## Runs -/

namespace Situation

theorem table_refresh {here : Situation} {remote : Remote}
    (origin : here.service.remote = some remote) (now : Instant) :
    let load : Load := ⟨here.service.loads, now, (remote.load here.service.loads here.disk now).1⟩
    let there := (here.perform now .refresh).2
    ((∀ document, ¬ load.Brings document) → there.service.active = here.service.active) ∧
      ∀ document, load.Brings document → Table.read document = .ok there.service.table := by
  intro load there
  have active : there.service.active = load.active here.service.active :=
    (perform_refresh origin now).2
  constructor
  · intro none
    obtain ⟨e, failed⟩ := Load.fails_iff.2 none
    rw [active, Load.active, failed]
    rfl
  · rintro document ⟨fetched, loaded, rfl, object⟩
    obtain ⟨table, read⟩ := isObject_iff.1 object
    have published := Load.published_eq_ok_iff.2 ⟨fetched, table, loaded, read, rfl⟩
    rw [Service.table, active, Load.active, published]
    exact read

/-- A service knows no model if and only if the document in use is an object without any. That is
the document which the last refresh that brought any brought, or else the first one that the start
found: origins that fail, or that have no object, are passed over and leave the table as it is. The
bundled table has models, and so has every table as long as no object without a model comes. -/
theorem empty_iff_hasNoModel {now : Instant} {disk : Disk} {origins : List Origin}
    {started : Service × Disk} (starts : Service.IsStart now disk origins started)
    (history : List (Instant × Operation)) :
    let here : Situation := ⟨started.1, started.2⟩
    let there := here.run history
    (∃ source source', Found now disk origins source ∧
        Load.InUse source (here.loads history) source' ∧ IsOf source' there.service.table ∧
        (there.service.table.size = 0 ↔
          ∃ document, source' = some document ∧ HasNoModel document)) ∧
      Table.bundled.size ≠ 0 ∧
      ((∀ document, Found now disk origins (some document) → ¬ HasNoModel document) →
        (∀ load ∈ here.loads history, ∀ document, load.Brings document → ¬ HasNoModel document) →
        there.service.table.size ≠ 0) ∧
      (∀ (origin : Origin) (between after : Disk), origin.Fails now between after ↔
        ∃ result, origin.Loads now between result after ∧
          ∀ fetched, result = .ok fetched → ¬ IsObject fetched.document) ∧
      ∀ remote time, here.service.remote = some remote →
        let load : Load :=
          ⟨there.service.loads, time, (remote.load there.service.loads there.disk time).1⟩
        let next := (there.perform time .refresh).2
        ((∀ document, ¬ load.Brings document) → next.service.active = there.service.active) ∧
          ∀ document, load.Brings document → Table.read document = .ok next.service.table := by
  intro here there
  obtain ⟨source, found, isOf⟩ := found_firstAvailable now origins disk
  rw [← starts.active_eq] at isOf
  -- whatever is done between them, the loads alone tell what is active in the end
  have leave : Load.Leave started.1.active (here.loads history) there.service.active := by
    have active := here.active_run history
    rw [active]
    exact Load.leave_foldl _ _
  obtain ⟨source', inUse, isOf'⟩ : ∃ source', Load.InUse source (here.loads history) source' ∧
      IsOf source' there.service.table := Load.inUse_of_leave leave isOf
  have empty := isOf'.size_eq_zero_iff
  refine ⟨⟨source, source', found, inUse, isOf', empty⟩, size_bundled_ne_zero, ?_,
    fun origin between after => fails_iff, ?_⟩
  · intro models models' none
    obtain ⟨document, rfl, noModel⟩ := empty.1 none
    cases inUse with
    | startup failed => exact models document found noModel
    | brought split brings failed => exact models' _ (by simp [split]) _ brings noModel
  · intro remote time origin
    exact table_refresh ((here.remote_run history).trans origin) time

/-- Two answers without a model: one to a start, and one to a refresh. -/
theorem empty_without_model :
    (Service.ofOrigins [.remote (.script fun _ => .ok ⟨Bytes.ofText "\x7b\x7d", none⟩), .bundled]
        none (.empty []) .epoch).1.table.size = 0 ∧
      (Service.ofOrigins [.bundled] none (.empty []) .epoch).1.table.size ≠ 0 ∧
      (run
        { service :=
            (Service.ofOrigins [.bundled] (some (.script fun _ =>
              .ok ⟨Bytes.ofText "\x7b\"error\":\"rate limited\"\x7d", none⟩))
              (.empty []) .epoch).1
          disk := .empty [] }
        [(.epoch, .refresh)]).service.table.size = 0 :=
  ⟨by decide +kernel, size_bundled_ne_zero, by decide +kernel⟩

/-- A server that fails at first, and then has nothing but an error to say. -/
theorem empty_iff_hasNoModel_error :
    let here : Situation :=
      { service :=
          (Service.ofOrigins [.bundled] (some (.script fun number =>
            if number = 0 then .error .offline
            else .ok ⟨Bytes.ofText "\x7b\"error\":\"rate limited\"\x7d", none⟩))
            (.empty []) .epoch).1
        disk := .empty [] }
    (here.run [(.epoch, .refresh)]).service.table.size ≠ 0 ∧
      (here.run [(.epoch, .refresh), (.ofSeconds 5, .refresh)]).service.table.size = 0 := by
  generalize document_eq : Bytes.ofText "\x7b\"error\":\"rate limited\"\x7d" = document
  have size : (Table.read document).toOption.map Table.size = some 0 := by
    rw [← document_eq]
    decide +kernel
  obtain ⟨table, accepted, size⟩ := Option.map_eq_some_iff.1 size
  have read := toOption_eq_some_iff.1 accepted
  -- the server is kept closed, so that no run of it is computed
  generalize remote_eq : Remote.script _ = remote
  intro here
  have starts : Service.IsStart .epoch (.empty []) [.bundled] (here.service, here.disk) :=
    .ofOrigins [.bundled] (some remote)
  have facts : here.service.remote = some remote ∧ here.service.loads = 0 ∧
      here.service.table = .bundled := ⟨rfl, rfl, rfl⟩
  clear_value here
  obtain ⟨origin, start, bundled⟩ := facts
  obtain ⟨-, -, -, -, first⟩ := empty_iff_hasNoModel starts []
  obtain ⟨-, -, -, -, second⟩ := empty_iff_hasNoModel starts [(.epoch, .refresh)]
  have kept := (first remote .epoch origin).1
  have published := (second remote (.ofSeconds 5) origin).2 document
  have asked : (here.run [(.epoch, .refresh)]).service.loads = 1 := by
    have changes := (changes_refresh here .epoch).loads
    rw [start, nextLoad, origin] at changes
    exact changes
  rw [run, start, ← remote_eq] at kept
  rw [asked, read, ← remote_eq] at published
  constructor
  · have same : (here.run [(.epoch, .refresh)]).service.active = here.service.active :=
      kept fun document brings => by
        obtain ⟨fetched, loaded, -⟩ := brings
        cases loaded
    rw [Service.table, same, ← Service.table, bundled]
    exact size_bundled_ne_zero
  · have object := isObject_iff.2 ⟨table, read⟩
    have same := Except.ok.inj (published ⟨⟨document, none⟩, rfl, rfl, object⟩)
    have last : (here.run [(.epoch, .refresh), (.ofSeconds 5, .refresh)]).service.table = table :=
      same.symm
    rw [last, size]

end Situation

end TokenTariff
