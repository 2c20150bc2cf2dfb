import TokenTariff.Origin
import TokenTariff.Tariff.Cost
/-!
# The service

A service answers from a table, which is replaced as a whole whenever a refresh brings a new one.
A refresh that fails leaves the table and its time as they are.

While a service refreshes itself, it has a next tick. The first tick comes as soon as the table has
reached the age of the interval, and each further one an interval after the last, whether that
succeeded or not.

* `Service.loadRemote` and `Service.publish` are the two steps of a refresh;
* `Service.refresh` takes both;
* `Service.startTicking`, `Service.tick` and `Service.stopTicking` are the life of the ticks.
-/

namespace TokenTariff
set_option autoImplicit false

/-! ## Options -/

/-- Where prices come from, and how often they are refreshed. -/
structure Options where
  remoteUrl : String
  /-- The path of the file on disk; without it there is none. -/
  cachePath : Option String
  fetchLimit : Duration
  cacheTtl : Duration
  refreshInterval : Duration
  /-- Offline, the file on disk may have any age, and no server is asked. -/
  offline : Bool

namespace Options

/-- The address of the price list of the community. -/
def defaultUrl : String :=
  "https://raw.githubusercontent.com/BerriAI/litellm/main/model_prices_and_context_window.json"

/-- The name of the file on disk. -/
def cacheName : String := "model_prices_and_context_window.json"

/-- The directory of the program among those of other programs. -/
def programName : String := "model-pricing"

/-- The path of the file on disk for the user with the given home directory. -/
def defaultCachePath (home : String) : String :=
  Path.join (Path.join (Path.join home ".cache") programName) cacheName

/-- The time between two refreshes, and for which a price list on disk is fresh. -/
def defaultInterval : Duration := .ofHours 24

/-- The options that hold where nothing else is asked for, for a user whose home directory may be
unknown. -/
def default (home : Option String) : Options where
  remoteUrl := defaultUrl
  cachePath := home.map defaultCachePath
  fetchLimit := .ofSeconds 30
  cacheTtl := defaultInterval
  refreshInterval := defaultInterval
  offline := false

def remote (options : Options) (network : Network) : Option Remote :=
  if options.offline then none
  else some (.server (network options.remoteUrl options.fetchLimit)
    (options.cachePath.map CacheFile.mk))

def origins (options : Options) (network : Network) : List Origin :=
  let ttl := if options.offline then none else some options.cacheTtl
  (options.cachePath.map fun path => Origin.cache ⟨path⟩ ttl).toList ++
    ((options.remote network).map Origin.remote).toList ++ [.bundled]

end Options

/-! ## Services -/

structure Service where
  active : Published
  remote : Option Remote
  /-- How often the remote origin has been loaded. -/
  loads : Nat
  interval : Duration
  /-- When the service refreshes itself next, while it does. -/
  nextTick : Option Instant

namespace Service

/-- A service with a table and without a remote origin. -/
def ofPublished (published : Published) : Service where
  active := published
  remote := none
  loads := 0
  interval := Options.defaultInterval
  nextTick := none

def bundled : Service :=
  ofPublished .bundled

/-- A service with the table of a price list. -/
def ofDocument (document : Bytes) : Except PricingError Service :=
  (Published.ofFetched ⟨document, none⟩).map ofPublished

/-- A service that starts from a list of origins, and the disk after the start. -/
def ofOrigins (origins : List Origin) (remote : Option Remote) (disk : Disk) (now : Instant) :
    Service × Disk :=
  let startup := firstAvailable now origins disk
  ({ ofPublished startup.published with remote }, startup.disk)

/-- A service that starts from a list of origins and is refreshed as `options` say. -/
def ofStart (origins : List Origin) (options : Options) (network : Network) (disk : Disk)
    (now : Instant) : Service × Disk :=
  let startup := firstAvailable now origins disk
  ({ active := startup.published
     remote := options.remote network
     loads := (origins.take startup.asked).countP Origin.isRemote
     interval := options.refreshInterval
     nextTick := none },
    startup.disk)

/-- A service that starts from the file on disk, the server, or the bundled table. -/
def load (options : Options) (network : Network) (disk : Disk) (now : Instant) : Service × Disk :=
  ofStart (options.origins network) options network disk now

/-- A service that starts without asking the server, which it asks for refreshes only. -/
def loadLocal (options : Options) (network : Network) (disk : Disk) (now : Instant) :
    Service × Disk :=
  ofStart (Options.origins { options with offline := true } network) options network disk now

/-! ## Answers -/

def table (service : Service) : Table :=
  service.active.table

/-- The time of the price list in use. -/
def lastUpdate (service : Service) : Option Instant :=
  service.active.updated

def cost (service : Service) (model : String) (usage : Usage) : Breakdown :=
  service.table.cost model usage

/-! ## Refreshes -/

/-- The first step of a refresh: loads the remote origin. It gives the table to publish, with the
time of the load if the origin knows none. -/
def loadRemote (service : Service) (disk : Disk) (now : Instant) :
    Except PricingError Published × Service × Disk :=
  match service.remote with
  | none => (.error .offline, service, disk)
  | some remote =>
    let (fetched, disk) := remote.load service.loads disk now
    let update := (fetched.bind Published.ofFetched).map fun published =>
      { published with updated := published.updated.or (some now) }
    (update, { service with loads := service.loads + 1 }, disk)

/-- The second step of a refresh: replaces the table. -/
def publish (service : Service) (published : Published) : Service :=
  { service with active := published }

/-- One refresh; it gives the number of models of the new table. -/
def refresh (service : Service) (disk : Disk) (now : Instant) :
    Except PricingError Nat × Service × Disk :=
  match service.loadRemote disk now with
  | (.error e, service, disk) => (.error e, service, disk)
  | (.ok published, service, disk) => (.ok published.table.size, service.publish published, disk)

/-! ## Ticks -/

/-- The time to the first tick: what is left of the interval since the last update. An update of
the future counts as one of now, and without an update there is nothing to wait for. -/
def firstDelay (lastUpdate : Option Instant) (now : Instant) (interval : Duration) : Duration :=
  match lastUpdate with
  | none => .zero
  | some last =>
    match now.elapsedSince? last with
    | none => interval
    | some elapsed => ⟨interval.nanos - elapsed.nanos⟩

def isTicking (service : Service) : Bool :=
  service.nextTick.isSome

/-- Lets the service refresh itself, if it has a remote origin and does not do so already. -/
def startTicking (service : Service) (now : Instant) : Service :=
  if service.remote.isNone || service.isTicking then service
  else
    { service with
      nextTick := some (now.after (firstDelay service.lastUpdate now service.interval)) }

def stopTicking (service : Service) : Service :=
  { service with nextTick := none }

/-- Takes a tick if one is due. -/
def tick (service : Service) (disk : Disk) (now : Instant) : Service × Disk :=
  match service.nextTick with
  | none => (service, disk)
  | some due =>
    if due.totalNanos ≤ now.totalNanos then
      let (_, service, disk) := service.refresh disk now
      ({ service with nextTick := some (now.after service.interval) }, disk)
    else (service, disk)

/-- A service that starts like `load` and refreshes itself. -/
def start (options : Options) (network : Network) (disk : Disk) (now : Instant) :
    Service × Disk :=
  let (service, disk) := load options network disk now
  (service.startTicking now, disk)

end Service

end TokenTariff
