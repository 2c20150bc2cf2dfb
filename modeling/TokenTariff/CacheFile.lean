import TokenTariff.Json.Record
import TokenTariff.PricingError
import TokenTariff.Time
/-!
# The price list on disk

The last price list that was fetched is kept in a file, with the second in which it was fetched:
a JSON object with the members `timestamp` and `data`. The price list stands in it exactly as it
was, except for the blanks around it.

* `CacheFile.save` writes the file, and makes its directory; what is not JSON is not written;
* `CacheFile.load` reads it, and refuses a price list that is older than the time to live.
-/

namespace TokenTariff
set_option autoImplicit false

/-- A price list with the time at which it was fetched. -/
structure CachedList where
  document : Bytes
  fetched : Instant

/-- The members of the file as far as they have been read. -/
structure CacheMembers where
  timestamp : Option Int
  data : Option Bytes

namespace CacheMembers

def none : CacheMembers := ⟨.none, .none⟩

def layout : Json.Layout CacheMembers where
  name := "CacheEnvelope"
  fields :=
    [.of "timestamp" timestamp (fun m n => { m with timestamp := some n }) Json.integer,
      .of "data" data (fun m text => { m with data := some text }) Json.takeRaw]
  allRequired := true

end CacheMembers

structure CacheFile where
  path : String

namespace CacheFile

/-- The seconds that name an instant; all others are read as the epoch. -/
def isInstant (seconds : Int) : Bool :=
  -8334601228800 ≤ seconds && seconds ≤ 8210266876799

def instantOf (seconds : Int) : Instant :=
  if isInstant seconds then .ofSeconds seconds else .epoch

/-- The content of the file for a price list. -/
def content (document : Bytes) (fetched : Instant) : Bytes :=
  Bytes.ofText ("\x7b\"timestamp\":" ++ toString fetched.seconds ++ ",\"data\":") ++ document ++
    Bytes.ofText "\x7d"

/-- The price list that the content of the file holds. -/
def parse (content : Bytes) : Except Json.Error CachedList := do
  let members ← Json.whole (CacheMembers.layout.read .none) content
  .ok ⟨members.data.getD [], instantOf (members.timestamp.getD 0)⟩

/-- How old a price list is if it is too old for the time to live. -/
def excessAge? (fetched : Instant) (ttl : Duration) (now : Instant) : Option Duration :=
  (now.elapsedSince? fetched).filter fun age => ttl.nanos < age.nanos

/-- The age in hours, of which the full seconds count. -/
def hours (age : Duration) : Float :=
  Float.ofNat age.seconds / 3600

/-- The price list in the file, if it is no older than the time to live. -/
def load (cache : CacheFile) (disk : Disk) (ttl : Option Duration) (now : Instant) :
    Except PricingError CachedList :=
  if !disk.has cache.path then .error (.cacheMissing cache.path)
  else
    match disk.read cache.path with
    | .error e => .error (.cacheUnreadable e)
    | .ok content =>
      match parse content with
      | .error e => .error (.cacheMalformed e)
      | .ok list =>
        match ttl.bind fun ttl => excessAge? list.fetched ttl now with
        | some age => .error (.cacheExpired (hours age))
        | none => .ok list

/-- Makes the directory of the file and writes it. The disk after a failure may have more
directories than before. -/
def writeContent (cache : CacheFile) (disk : Disk) (content : Bytes) :
    Disk × Except PricingError Unit :=
  let (disk, result) := disk.writeWithin cache.path content
  (disk, result.mapError .cacheUnreadable)

def save (cache : CacheFile) (disk : Disk) (document : Bytes) (fetched : Instant) :
    Disk × Except PricingError Unit :=
  match Json.whole Json.takeRaw document with
  | .error e => (disk, .error (.notJson e))
  | .ok document => cache.writeContent disk (content document fetched)

end CacheFile

end TokenTariff
