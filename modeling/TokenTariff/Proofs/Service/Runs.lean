import Mathlib.Tactic.Common
import TokenTariff.Proofs.Results
import TokenTariff.Service
/-!
# Runs of a service

A service is used by any number of operations one after another, of which two replace the table: the
refreshes that are asked for and the ticks. Either loads the remote origin, and what it publishes is
made of what one load gave. So the table and its time are at each point those of the last load that
could be published, or those of the start if there was none.

* `Operation` and `Situation.perform`: what can be done with a service; `Situation.run` does a list
  of it;
* `Load`: a load of the remote origin, and `Load.published` what is made of it;
* `Situation.loads`: the loads that a run makes;
* `Situation.active_perform`, `Situation.active_run`: the table after an operation and after a run.
-/

namespace TokenTariff
set_option autoImplicit false

/-! ## Operations -/

/-- A service and the disk it writes to. -/
structure Situation where
  service : Service
  disk : Disk

inductive Operation where
  | cost (model : String) (usage : Usage)
  | resolve (model : String)
  | lastUpdate
  | refresh
  | tick
  | start
  | stop

inductive Answer where
  | cost (breakdown : Breakdown)
  | resolved (found : Option Resolved)
  | updated (time : Option Instant)
  | refreshed (size : Except PricingError Nat)
  | done

namespace Situation

/-- One operation at the time that the clock shows. -/
def perform (here : Situation) (now : Instant) : Operation → Answer × Situation
  | .cost model usage => (.cost (here.service.cost model usage), here)
  | .resolve model => (.resolved (here.service.table.resolve model), here)
  | .lastUpdate => (.updated here.service.lastUpdate, here)
  | .refresh =>
    let (size, service, disk) := here.service.refresh here.disk now
    (.refreshed size, ⟨service, disk⟩)
  | .tick =>
    let (service, disk) := here.service.tick here.disk now
    (.done, ⟨service, disk⟩)
  | .start => (.done, { here with service := here.service.startTicking now })
  | .stop => (.done, { here with service := here.service.stopTicking })

/-- The situation after operations one after another, each with its time. -/
def run (here : Situation) : List (Instant × Operation) → Situation
  | [] => here
  | (now, operation) :: history => run (here.perform now operation).2 history

end Situation

/-! ## Loads -/

/-- A load of the remote origin: its number, its time and what it gave. -/
structure Load where
  number : Nat
  time : Instant
  fetched : Except PricingError Fetched

namespace Load

/-- The table of the document that was loaded, with the time that came with the document or else
that of the load. -/
def published (load : Load) : Except PricingError Published :=
  match load.fetched with
  | .error e => .error e
  | .ok fetched =>
    match Table.read fetched.document with
    | .error e => .error (.notAPriceList e)
    | .ok table => .ok ⟨table, some (fetched.updated.getD load.time)⟩

/-- What is in use after a load. -/
def active (load : Load) (before : Published) : Published :=
  load.published.toOption.getD before

/-- A load of which nothing can be published. -/
def Fails (load : Load) : Prop := ∃ e, load.published = .error e

theorem published_eq_ok_iff {load : Load} {published : Published} :
    load.published = .ok published ↔
      ∃ fetched table, load.fetched = .ok fetched ∧ Table.read fetched.document = .ok table ∧
        published = ⟨table, some (fetched.updated.getD load.time)⟩ := by
  unfold Load.published
  cases load.fetched with
  | error e => simp
  | ok fetched =>
    cases read : Table.read fetched.document with
    | error e => simp [read]
    | ok table => simp [read, eq_comm]

/-- What is in use after some loads: what was in use before if all of them failed, or else the table
and the time of the last one that did not. -/
inductive Leave (startup : Published) (loads : List Load) : Published → Prop where
  | startup (failed : ∀ load ∈ loads, load.Fails) : Leave startup loads startup
  | published {before after : List Load} {load : Load} {fetched : Fetched} {table : Table}
      (split : loads = before ++ load :: after) (loaded : load.fetched = .ok fetched)
      (read : Table.read fetched.document = .ok table) (failed : ∀ later ∈ after, later.Fails) :
      Leave startup loads ⟨table, some (fetched.updated.getD load.time)⟩

theorem Leave.cons {load : Load} {startup active : Published} {loads : List Load}
    (h : Leave (load.active startup) loads active) : Leave startup (load :: loads) active := by
  cases h with
  | startup failed =>
    rw [Load.active]
    cases result : load.published with
    | error e =>
      refine .startup fun other mem => ?_
      rcases List.mem_cons.1 mem with rfl | mem
      · exact ⟨e, result⟩
      · exact failed other mem
    | ok published =>
      obtain ⟨fetched, table, loaded, read, rfl⟩ := published_eq_ok_iff.1 result
      exact .published (List.nil_append _).symm loaded read failed
  | published split loaded read failed =>
    rw [split]
    exact .published (List.cons_append ..).symm loaded read failed

/-- After a success the time is known for ever. -/
theorem Leave.updated_ne_none {startup active : Published} {loads : List Load}
    (h : Leave startup loads active) (succeeded : ∃ load ∈ loads, ¬ load.Fails) :
    active.updated ≠ none := by
  obtain ⟨load, mem, succeeded⟩ := succeeded
  cases h with
  | startup failed => exact absurd (failed load mem) succeeded
  | published split loaded read failed => exact nofun

theorem leave_foldl (startup : Published) : ∀ loads : List Load,
    Leave startup loads (loads.foldl (fun before load => load.active before) startup)
  | [] => .startup nofun
  | load :: loads => (leave_foldl (load.active startup) loads).cons

end Load

namespace Situation

/-- The next load of the remote origin, if there is one. -/
def nextLoad (here : Situation) (now : Instant) : Option Load :=
  here.service.remote.map fun remote =>
    ⟨here.service.loads, now, (remote.load here.service.loads here.disk now).1⟩

/-- Whether the service refreshes itself by now. -/
def isDue (here : Situation) (now : Instant) : Bool :=
  here.service.nextTick.any fun due => due.totalNanos ≤ now.totalNanos

/-- The load that an operation makes, if it makes one. -/
def load? (here : Situation) (now : Instant) : Operation → Option Load
  | .refresh => here.nextLoad now
  | .tick => if here.isDue now then here.nextLoad now else none
  | _ => none

/-- The loads that a run makes. -/
def loads (here : Situation) : List (Instant × Operation) → List Load
  | [] => []
  | (now, operation) :: history =>
    (here.load? now operation).toList ++ loads (here.perform now operation).2 history

end Situation

/-! ## One refresh -/

theorem Load.published_eq (number : Nat) (now : Instant) (fetched : Except PricingError Fetched) :
    (fetched.bind Published.ofFetched).map (fun published =>
      { published with updated := published.updated.or (some now) }) =
        (Load.mk number now fetched).published := by
  cases fetched with
  | error e => rfl
  | ok fetched =>
    simp only [Except.bind, Published.ofFetched, Load.published]
    cases Table.read fetched.document with
    | error e => rfl
    | ok table => cases fetched.updated <;> rfl

namespace Service

/-- Loading alone does not replace the table. -/
theorem active_loadRemote (service : Service) (disk : Disk) (now : Instant) :
    (service.loadRemote disk now).2.1.active = service.active := by
  rw [loadRemote]
  split <;> rfl

theorem refresh_of_none {service : Service} (h : service.remote = none) (disk : Disk)
    (now : Instant) : service.refresh disk now = (.error .offline, service, disk) := by
  rw [refresh, loadRemote, h]

/-- A refresh gives the size of the table that it publishes, or the error of the load, and then
leaves the table as it is. -/
theorem refresh_of_some {service : Service} {remote : Remote} (h : service.remote = some remote)
    (disk : Disk) (now : Instant) :
    let load : Load := ⟨service.loads, now, (remote.load service.loads disk now).1⟩
    service.refresh disk now =
      (load.published.map fun published => published.table.size,
        { service with active := load.active service.active, loads := service.loads + 1 },
        (remote.load service.loads disk now).2) := by
  rw [refresh, loadRemote, h]
  simp only [Load.published_eq service.loads now]
  unfold Load.active
  cases (Load.mk service.loads now (remote.load service.loads disk now).1).published with
  | error e => rfl
  | ok published => rfl

end Service

/-! ## One operation -/

/-- What an operation does to a service if it makes no load, or one. -/
structure Situation.Changes (here next : Situation) (load : Option Load) : Prop where
  remote : next.service.remote = here.service.remote
  loads : next.service.loads = here.service.loads + load.toList.length
  active : next.service.active = load.elim here.service.active fun load =>
    load.active here.service.active

namespace Situation

theorem changes_refresh (here : Situation) (now : Instant) :
    Changes here (here.perform now .refresh).2 (here.nextLoad now) := by
  cases remote : here.service.remote with
  | none =>
    rw [perform, nextLoad, Service.refresh_of_none remote, remote]
    exact ⟨rfl, rfl, rfl⟩
  | some origin =>
    rw [perform, nextLoad, Service.refresh_of_some remote, remote]
    exact ⟨remote.symm, rfl, rfl⟩

theorem changes_tick (here : Situation) (now : Instant) :
    Changes here (here.perform now .tick).2 (here.load? now .tick) := by
  have refreshed := changes_refresh here now
  simp only [perform] at refreshed ⊢
  rw [load?, isDue, Service.tick]
  cases due : here.service.nextTick with
  | none => exact ⟨rfl, rfl, rfl⟩
  | some time =>
    by_cases passed : time.totalNanos ≤ now.totalNanos
    · simp only [passed, if_true, Option.any_some, decide_true]
      exact ⟨refreshed.remote, refreshed.loads, refreshed.active⟩
    · simp only [passed, if_false, Option.any_some, decide_false]
      exact ⟨rfl, rfl, rfl⟩

/-- What is in use is changed by an operation only if it makes a load, and then by that load. -/
theorem changes_perform (here : Situation) (now : Instant) (operation : Operation) :
    Changes here (here.perform now operation).2 (here.load? now operation) := by
  cases operation with
  | refresh => exact changes_refresh here now
  | tick => exact changes_tick here now
  | start =>
    rw [perform, Service.startTicking]
    split
    · exact ⟨rfl, rfl, rfl⟩
    · exact ⟨rfl, rfl, rfl⟩
  | _ => exact ⟨rfl, rfl, rfl⟩

/-! ## Runs -/

theorem Remote.fetched_eq (remote : Remote) (number : Nat) (disk disk' : Disk) (now : Instant) :
    (remote.load number disk now).1 = (remote.load number disk' now).1 := by
  cases remote with
  | script outcome => rfl
  | server answer cache =>
    rw [Remote.load, Remote.load]
    cases answer number with
    | error e => rfl
    | ok document => rfl

theorem mem_nextLoad {here : Situation} {now : Instant} {load : Load}
    (h : here.nextLoad now = some load) :
    load.number = here.service.loads ∧ ∃ remote, here.service.remote = some remote ∧
      ∀ disk, (remote.load load.number disk load.time).1 = load.fetched := by
  obtain ⟨remote, origin, rfl⟩ := Option.map_eq_some_iff.1 h
  exact ⟨rfl, remote, origin, fun disk => Remote.fetched_eq remote _ _ _ _⟩

theorem nextLoad_of_load? {here : Situation} {now : Instant} {operation : Operation} {load : Load}
    (h : here.load? now operation = some load) : here.nextLoad now = some load := by
  cases operation with
  | refresh => exact h
  | tick =>
    rw [load?] at h
    split at h
    · exact h
    · cases h
  | _ => cases h

theorem remote_run (here : Situation) : ∀ history : List (Instant × Operation),
    (here.run history).service.remote = here.service.remote
  | [] => rfl
  | (now, operation) :: history =>
    (remote_run _ history).trans (changes_perform here now operation).remote

/-- A run numbers its loads one after another. -/
theorem numbers_loads (here : Situation) : ∀ history : List (Instant × Operation),
    (here.loads history).map Load.number =
      List.range' here.service.loads (here.loads history).length
  | [] => rfl
  | (now, operation) :: history => by
    have changes := changes_perform here now operation
    have later := numbers_loads (here.perform now operation).2 history
    rw [changes.loads] at later
    rw [loads]
    cases made : here.load? now operation with
    | none => simpa [made] using later
    | some load =>
      have number := (mem_nextLoad (nextLoad_of_load? made)).1
      simp only [made, Option.toList_some, List.length_singleton] at later
      simp [later, number, List.range'_succ]

/-- Each load of a run gave what the remote origin gives to the load with its number. -/
theorem fetched_of_mem_loads (here : Situation) : ∀ history : List (Instant × Operation),
    ∀ load ∈ here.loads history, ∃ remote, here.service.remote = some remote ∧
      ∀ disk, (remote.load load.number disk load.time).1 = load.fetched
  | [] => nofun
  | (now, operation) :: history => by
    intro load mem
    rcases List.mem_append.1 mem with mem | mem
    · have made := Option.mem_toList.1 mem
      exact (mem_nextLoad (nextLoad_of_load? made)).2
    · rw [← (changes_perform here now operation).remote]
      exact fetched_of_mem_loads _ history load mem

theorem loads_of_offline {here : Situation} (offline : here.service.remote = none)
    (history : List (Instant × Operation)) : here.loads history = [] := by
  refine List.eq_nil_iff_forall_not_mem.2 fun load mem => ?_
  obtain ⟨remote, some, -⟩ := here.fetched_of_mem_loads history load mem
  rw [offline] at some
  cases some

/-- What is in use after a run is told by its loads. -/
theorem active_run (here : Situation) : ∀ history : List (Instant × Operation),
    (here.run history).service.active =
      (here.loads history).foldl (fun before load => load.active before) here.service.active
  | [] => rfl
  | (now, operation) :: history => by
    rw [run, active_run _ history, loads, List.foldl_append,
      (changes_perform here now operation).active]
    cases here.load? now operation with
    | none => rfl
    | some load => rfl

/-- A refresh gives back what became of its load, and replaces the table only if all went well. -/
theorem perform_refresh {here : Situation} {remote : Remote}
    (origin : here.service.remote = some remote) (now : Instant) :
    let load : Load := ⟨here.service.loads, now, (remote.load here.service.loads here.disk now).1⟩
    (here.perform now .refresh).1 =
        .refreshed (load.published.map fun published => published.table.size) ∧
      (here.perform now .refresh).2.service.active = load.active here.service.active := by
  simp only [perform, Service.refresh_of_some origin]
  exact ⟨trivial, trivial⟩

/-- After any run, what is in use is what was in use at its start, or else it is all made of one of
the loads of the run, the last one that could be published. A further refresh gives back its error
and changes nothing, or publishes its load and gives back the size of the table; while it loads, it
changes nothing yet. Without a remote origin nothing ever changes, and after a success the time is
known for ever. -/
theorem run_leaves_last_load (here : Situation) (history : List (Instant × Operation)) :
    let there := here.run history
    Load.Leave here.service.active (here.loads history) there.service.active ∧
    ((here.loads history).map Load.number =
        List.range' here.service.loads (here.loads history).length ∧
      ∀ load ∈ here.loads history, ∃ remote, here.service.remote = some remote ∧
        ∀ disk, (remote.load load.number disk load.time).1 = load.fetched) ∧
    (∀ now, (there.service.loadRemote there.disk now).2.1.active = there.service.active) ∧
    (∀ remote now fetched, here.service.remote = some remote →
      (remote.load there.service.loads there.disk now).1 = fetched →
      (∀ e, fetched = .error e →
        (there.perform now .refresh).1 = .refreshed (.error e) ∧
          (there.perform now .refresh).2.service.active = there.service.active) ∧
      (∀ list e, fetched = .ok list → Table.read list.document = .error e →
        (there.perform now .refresh).1 = .refreshed (.error (.notAPriceList e)) ∧
          (there.perform now .refresh).2.service.active = there.service.active) ∧
      ∀ list table, fetched = .ok list → Table.read list.document = .ok table →
        (there.perform now .refresh).1 = .refreshed (.ok table.size) ∧
          (there.perform now .refresh).2.service.active =
            ⟨table, some (list.updated.getD now)⟩) ∧
    (here.service.remote = none → there.service.active = here.service.active ∧
      ∀ now, (there.perform now .refresh).1 = .refreshed (.error .offline)) ∧
    ((∃ load ∈ here.loads history, ¬ load.Fails) → there.service.lastUpdate ≠ none) := by
  simp only
  have origin := here.remote_run history
  have leave : Load.Leave here.service.active (here.loads history)
      (here.run history).service.active := by
    rw [active_run]
    exact Load.leave_foldl _ _
  refine ⟨leave, ⟨here.numbers_loads history, here.fetched_of_mem_loads history⟩,
    fun now => Service.active_loadRemote _ _ _, ?_, ?_, leave.updated_ne_none⟩
  · intro remote now fetched remote_eq fetched_eq
    obtain ⟨answer, active⟩ := perform_refresh (origin.trans remote_eq) now
    rw [fetched_eq] at answer active
    rw [answer, active]
    refine ⟨?_, ?_, ?_⟩
    · rintro e rfl
      exact ⟨rfl, rfl⟩
    · rintro list e rfl read
      simp only [Load.active, Load.published, read]
      exact ⟨rfl, rfl⟩
    · rintro list table rfl read
      simp only [Load.active, Load.published, read]
      exact ⟨rfl, rfl⟩
  · intro offline
    refine ⟨?_, fun now => ?_⟩
    · rw [active_run, loads_of_offline offline, List.foldl_nil]
    · rw [perform, Service.refresh_of_none (origin.trans offline)]

/-- Two refreshes, of which the second one fails. -/
theorem run_leaves_last_load_two_refreshes :
    ∃ table : Table, table.size = 1 ∧
      (run
        { service :=
            { Service.bundled with remote := some (.script fun number =>
                if number = 0 then .ok ⟨Bytes.ofText "\x7b\"gpt-5\":\x7b\x7d\x7d", none⟩
                else .error .offline) }
          disk := .empty [] }
        [(.epoch, .refresh), (.ofSeconds 5, .refresh)]).service.active = ⟨table, some .epoch⟩ := by
  generalize document_eq : Bytes.ofText "\x7b\"gpt-5\":\x7b\x7d\x7d" = document
  have size : (Table.read document).toOption.map Table.size = some 1 := by
    rw [← document_eq]
    decide +kernel
  obtain ⟨table, accepted, size⟩ := Option.map_eq_some_iff.1 size
  have read := toOption_eq_some_iff.1 accepted
  generalize here_eq : Situation.mk _ _ = here
  have origin : here.service.remote = some (.script fun number =>
      if number = 0 then .ok ⟨document, none⟩ else .error .offline) := by rw [← here_eq]
  have start : here.service.loads = 0 := by rw [← here_eq]; rfl
  have loads : (here.run [(.epoch, .refresh)]).service.loads = 1 := by
    have changes := (changes_refresh here .epoch).loads
    rw [start, nextLoad, origin] at changes
    exact changes
  obtain ⟨-, -, -, first, -⟩ := run_leaves_last_load here []
  obtain ⟨-, -, -, second, -⟩ := run_leaves_last_load here [(.epoch, .refresh)]
  have published := ((first _ .epoch (.ok ⟨document, none⟩) origin
    (by rw [run, start]; rfl)).2.2 _ table rfl read).2
  have kept := ((second _ (.ofSeconds 5) (.error .offline) origin
    (by rw [loads]; rfl)).1 _ rfl).2
  exact ⟨table, size, kept.trans published⟩

end Situation

end TokenTariff
