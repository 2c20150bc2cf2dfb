import TokenTariff.CacheFile
import TokenTariff.Tariff.Bundled
/-!
# Where price lists come from

A price list comes from the file on disk, from a remote server, or out of the program itself. The
origins are asked in order, and the first that gives a price list is taken; the bundled one stands
at the end and never fails.

A server is asked by number: `Remote.load` of the load with a given number gives what the server
answers to it. What a server gives is stamped with the time of the load and written to the file on
disk; that it cannot be written is no failure.

* `Origin.load` asks one origin;
* `firstAvailable` asks a list of origins and tells how many it asked.
-/

namespace TokenTariff
set_option autoImplicit false

/-- A price list as it comes from an origin, with its time if the origin knows it. -/
structure Fetched where
  document : Bytes
  updated : Option Instant

/-- A table with the time of its price list. -/
structure Published where
  table : Table
  updated : Option Instant

namespace Published

/-- The table of the bundled price list, which has no time. -/
def bundled : Published := ⟨.bundled, none⟩

def ofFetched (fetched : Fetched) : Except PricingError Published :=
  match Table.read fetched.document with
  | .error e => .error (.notAPriceList e)
  | .ok table => .ok ⟨table, fetched.updated⟩

end Published

/-! ## Servers -/

/-- What a server answers to a request. -/
structure Response where
  status : Nat
  body : Bytes

/-- Refuses a document that is not one JSON object. -/
def checkDocument (document : Bytes) : Except PricingError Unit :=
  match Json.whole Json.objectMembers document with
  | .error e => .error (.notJson e)
  | .ok _ => .ok ()

/-- The document of an answer: the body of a success, if it is a JSON object. -/
def Response.document (response : Response) : Except PricingError Bytes :=
  if response.status = 200 then (checkDocument response.body).map fun _ => response.body
  else .error (.refused response.status)

/-- What is at the other end of the network: the document that the request with a given number to
an address brings within a time limit. -/
abbrev Network : Type := (url : String) → (limit : Duration) → (number : Nat) →
  Except PricingError Bytes

/-- An origin that can be asked again and again. -/
inductive Remote where
  /-- A server, and the file to which its price lists are written. -/
  | server (answer : Nat → Except PricingError Bytes) (cache : Option CacheFile)
  /-- Any other origin, by what each load of it gives. -/
  | script (outcome : Nat → Except PricingError Fetched)

/-- What the load with the given number gives, and the disk after it. -/
def Remote.load (number : Nat) (disk : Disk) (now : Instant) :
    Remote → Except PricingError Fetched × Disk
  | script outcome => (outcome number, disk)
  | server answer cache =>
    match answer number with
    | .error e => (.error e, disk)
    | .ok document =>
      (.ok ⟨document, some now⟩, cache.elim disk fun file => (file.save disk document now).1)

/-! ## Origins -/

inductive Origin where
  /-- The file on disk, if its price list is no older than the time to live. -/
  | cache (file : CacheFile) (ttl : Option Duration)
  | remote (server : Remote)
  | bundled

namespace Origin

def name : Origin → String
  | cache _ _ => "cache"
  | remote _ => "remote"
  | bundled => "embedded"

def isRemote : Origin → Bool
  | remote _ => true
  | _ => false

/-- What the file on disk gives. -/
def loadCache (file : CacheFile) (ttl : Option Duration) (disk : Disk) (now : Instant) :
    Except PricingError Published := do
  let list ← file.load disk ttl now
  Published.ofFetched ⟨list.document, some list.fetched⟩

/-- What an origin gives when it is asked for the first time, and the disk after it. -/
def load (disk : Disk) (now : Instant) : Origin → Except PricingError Published × Disk
  | cache file ttl => (loadCache file ttl disk now, disk)
  | remote server =>
    let (fetched, disk) := server.load 0 disk now
    (fetched.bind Published.ofFetched, disk)
  | bundled => (.ok .bundled, disk)

end Origin

/-- The outcome of asking a list of origins. -/
structure Startup where
  published : Published
  /-- How many origins were asked, which are the first of the list. -/
  asked : Nat
  disk : Disk

/-- The first table that a list of origins gives, or else the bundled one. -/
def firstAvailable (now : Instant) : List Origin → Disk → Startup
  | [], disk => ⟨.bundled, 0, disk⟩
  | origin :: origins, disk =>
    match origin.load disk now with
    | (.ok published, disk) => ⟨published, 1, disk⟩
    | (.error _, disk) =>
      let rest := firstAvailable now origins disk
      { rest with asked := rest.asked + 1 }

end TokenTariff
