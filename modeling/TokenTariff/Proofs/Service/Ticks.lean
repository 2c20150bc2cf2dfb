import TokenTariff.Proofs.Service.Runs
/-!
# The ticks of a service

A service refreshes itself from a start until the next stop, if it has a remote origin. It has one
next tick at most, so that a start while it refreshes itself changes nothing. The first tick comes
when the delay of the start is over, and each further one an interval after the last, whatever the
last one brought. Each tick loads the remote origin once, and a service that was stopped loads it
only when it is asked to.

* `Operation.switch?`, `lastSwitch?`: the starts and stops of a history;
* `Situation.ticks`: the loads that the ticks of a run make;
* `dueAfter`, `Situation.IsPrompt`: when the next tick is due, and ticks that come as soon as they
  are;
* `Situation.nextTick_perform`: what an operation does to the next tick;
* `Situation.ticks_between_start_and_stop`: the whole life of the ticks.
-/

namespace TokenTariff
set_option autoImplicit false

/-! ## Starts, stops and ticks of a history -/

namespace Operation

/-- Whether a service shall refresh itself after an operation, if that tells. -/
def switch? : Operation → Option Bool
  | start => some true
  | stop => some false
  | _ => none

def isRefresh : Operation → Bool
  | refresh => true
  | _ => false

def isTick : Operation → Bool
  | tick => true
  | _ => false

end Operation

/-- What the last start or stop of a history tells. -/
def lastSwitch? (history : List (Instant × Operation)) : Option Bool :=
  (history.filterMap fun item => item.2.switch?).getLast?

theorem lastSwitch?_cons (item : Instant × Operation) (history : List (Instant × Operation)) :
    lastSwitch? (item :: history) = (lastSwitch? history).or item.2.switch? := by
  simp only [lastSwitch?, List.filterMap_cons]
  cases item.2.switch? with
  | none => exact Option.or_none.symm
  | some switch =>
    simp only [List.getLast?_cons]
    cases (history.filterMap fun item => item.2.switch?).getLast? <;> rfl

/-- When the next tick is due, given when the first one was and which ticks were taken. -/
def dueAfter (interval : Duration) (first : Instant) (ticks : List Load) : Instant :=
  (ticks.getLast?.map fun load => load.time.after interval).getD first

theorem dueAfter_cons (interval : Duration) (first : Instant) (load : Load) (ticks : List Load) :
    dueAfter interval first (load :: ticks) =
      dueAfter interval (load.time.after interval) ticks := by
  unfold dueAfter
  rw [List.getLast?_cons]
  cases ticks.getLast? <;> rfl

namespace Situation

/-- The load that an operation makes, if it is a tick. -/
def tick? (here : Situation) (now : Instant) (operation : Operation) : Option Load :=
  if operation.isTick then here.load? now operation else none

/-- The loads that the ticks of a run make. -/
def ticks (here : Situation) : List (Instant × Operation) → List Load
  | [] => []
  | (now, operation) :: history =>
    (here.tick? now operation).toList ++ ticks (here.perform now operation).2 history

/-- Each tick of a history comes as soon as it is due. -/
def IsPrompt (here : Situation) : List (Instant × Operation) → Prop
  | [] => True
  | (now, operation) :: history =>
    (operation.isTick = true → here.service.nextTick = some now) ∧
      IsPrompt (here.perform now operation).2 history

/-! ## One operation -/

theorem nextTick_refresh (service : Service) (disk : Disk) (now : Instant) :
    (service.refresh disk now).2.1.nextTick = service.nextTick ∧
      (service.refresh disk now).2.1.interval = service.interval := by
  cases remote : service.remote with
  | none =>
    rw [Service.refresh_of_none remote]
    exact ⟨rfl, rfl⟩
  | some origin =>
    rw [Service.refresh_of_some remote]
    exact ⟨rfl, rfl⟩

/-- A start sets the next tick unless there is one, or no remote origin; a stop takes it away; and a
tick that is due puts it off by the interval. -/
theorem nextTick_perform (here : Situation) (now : Instant) (operation : Operation) :
    (here.perform now operation).2.service.nextTick =
      match operation with
      | .start =>
        if here.service.remote.isNone || here.service.isTicking then here.service.nextTick
        else some (now.after
          (Service.firstDelay here.service.lastUpdate now here.service.interval))
      | .stop => none
      | .tick =>
        if here.isDue now then some (now.after here.service.interval) else here.service.nextTick
      | _ => here.service.nextTick := by
  cases operation with
  | refresh => exact (nextTick_refresh _ _ _).1
  | start =>
    simp only [perform, Service.startTicking]
    split <;> rfl
  | tick =>
    have refreshed := (nextTick_refresh here.service here.disk now).2
    rw [perform, isDue, Service.tick]
    cases due : here.service.nextTick with
    | none => exact due
    | some time =>
      by_cases passed : time.totalNanos ≤ now.totalNanos
      · simp only [passed, if_true, Option.any_some, decide_true, refreshed]
      · simp only [passed, if_false, Option.any_some, decide_false]
        exact due
  | _ => rfl

theorem interval_perform (here : Situation) (now : Instant) (operation : Operation) :
    (here.perform now operation).2.service.interval = here.service.interval := by
  cases operation with
  | refresh => exact (nextTick_refresh _ _ _).2
  | start =>
    simp only [perform, Service.startTicking]
    split <;> rfl
  | tick =>
    simp only [perform, Service.tick]
    split
    · rfl
    · split
      · exact (nextTick_refresh _ _ _).2
      · rfl
  | _ => rfl

theorem perform_start_of_isTicking {here : Situation} (h : here.service.isTicking = true)
    (now : Instant) : (here.perform now .start).2 = here := by
  simp only [perform, Service.startTicking, h, Bool.or_true, if_true]

theorem tick_of_early {here : Situation} {due now : Instant} (h : here.service.nextTick = some due)
    (early : now.totalNanos < due.totalNanos) :
    here.load? now .tick = none ∧ (here.perform now .tick).2 = here := by
  have isDue : here.isDue now = false := by
    rw [Situation.isDue, h, Option.any_some]
    exact decide_eq_false (Int.not_le.2 early)
  constructor
  · rw [load?, isDue]
    rfl
  · simp only [perform, Service.tick, h, if_neg (Int.not_le.2 early)]

/-- A tick that is due loads the remote origin once, and the next one is due an interval later,
whatever the load brought. -/
theorem tick_of_due {here : Situation} {due now : Instant} (h : here.service.nextTick = some due)
    (remote : here.service.remote.isSome) (passed : due.totalNanos ≤ now.totalNanos) :
    ∃ origin, here.service.remote = some origin ∧
      here.load? now .tick =
        some ⟨here.service.loads, now, (origin.load here.service.loads here.disk now).1⟩ ∧
      (here.perform now .tick).2.service.loads = here.service.loads + 1 ∧
      (here.perform now .tick).2.service.nextTick = some (now.after here.service.interval) := by
  obtain ⟨origin, has⟩ := Option.isSome_iff_exists.1 remote
  have isDue : here.isDue now = true := by
    rw [Situation.isDue, h, Option.any_some]
    exact decide_eq_true passed
  have load : here.load? now .tick =
      some ⟨here.service.loads, now, (origin.load here.service.loads here.disk now).1⟩ := by
    rw [load?, isDue, nextLoad, has]
    rfl
  have loads := (changes_perform here now .tick).loads
  rw [load] at loads
  exact ⟨origin, has, load, loads, (nextTick_perform here now .tick).trans (if_pos isDue)⟩

theorem load?_tick_of_idle {here : Situation} (h : here.service.nextTick = none) (now : Instant) :
    here.load? now .tick = none := by
  rw [load?, isDue, h]
  rfl

end Situation

/-! ## Who refreshes itself -/

/-- Only a service with a remote origin refreshes itself. -/
def Service.IsWellKept (service : Service) : Prop :=
  service.isTicking = true → service.remote.isSome

namespace Service

theorem isWellKept_of_idle {service : Service} (h : service.nextTick = none) :
    service.IsWellKept := by
  intro ticking
  rw [isTicking, h] at ticking
  cases ticking

theorem isWellKept_startTicking {service : Service} (h : service.IsWellKept) (now : Instant) :
    (service.startTicking now).IsWellKept := by
  rw [startTicking]
  split
  · exact h
  · next starts =>
    intro _
    cases remote : service.remote with
    | none => exact absurd (by rw [remote]; rfl) starts
    | some origin => rfl

theorem isWellKept_ofPublished (published : Published) : (ofPublished published).IsWellKept :=
  isWellKept_of_idle rfl

theorem isWellKept_ofOrigins (origins : List Origin) (remote : Option Remote) (disk : Disk)
    (now : Instant) : (ofOrigins origins remote disk now).1.IsWellKept :=
  isWellKept_of_idle rfl

theorem isWellKept_ofStart (origins : List Origin) (options : Options) (network : Network)
    (disk : Disk) (now : Instant) : (ofStart origins options network disk now).1.IsWellKept :=
  isWellKept_of_idle rfl

theorem isWellKept_start (options : Options) (network : Network) (disk : Disk) (now : Instant) :
    (start options network disk now).1.IsWellKept :=
  isWellKept_startTicking (isWellKept_ofStart _ _ _ _ _) now

end Service

namespace Situation

/-- Whether a service refreshes itself after an operation is told by the operation, or else it does
as it did before. -/
theorem isTicking_perform {here : Situation} (kept : here.service.IsWellKept) (now : Instant)
    (operation : Operation) :
    (here.perform now operation).2.service.isTicking =
      (here.service.remote.isSome && operation.switch?.getD here.service.isTicking) := by
  have old : (here.service.remote.isSome && here.service.isTicking) = here.service.isTicking := by
    cases ticking : here.service.isTicking with
    | false => exact Bool.and_false _
    | true => rw [kept ticking, Bool.and_true]
  rw [Service.isTicking, nextTick_perform]
  cases operation with
  | start =>
    simp only [Operation.switch?, Option.getD_some, Bool.and_true]
    cases remote : here.service.remote with
    | none =>
      rw [remote] at old
      exact old.symm
    | some origin =>
      cases ticking : here.service.isTicking with
      | false => rfl
      | true => exact ticking
  | stop => exact (Bool.and_false _).symm
  | tick =>
    simp only [Operation.switch?, Option.getD_none, old]
    split
    · next due =>
      obtain ⟨time, has, -⟩ := (Option.any_eq_true _ _).1 due
      rw [Service.isTicking, has]
      rfl
    · rfl
  | _ => exact old.symm

theorem isWellKept_perform {here : Situation} (kept : here.service.IsWellKept) (now : Instant)
    (operation : Operation) : (here.perform now operation).2.service.IsWellKept := by
  rw [Service.IsWellKept, isTicking_perform kept, (changes_perform here now operation).remote,
    Bool.and_eq_true]
  exact And.left

/-- A service that starts refreshes itself unless it is offline. -/
theorem isTicking_start (options : Options) (network : Network) (disk : Disk) (now : Instant) :
    (Service.start options network disk now).1.isTicking = !options.offline := by
  let loaded : Situation := ⟨(Service.load options network disk now).1, disk⟩
  have idle : loaded.service.IsWellKept := Service.isWellKept_ofStart _ _ _ _ _
  have remote : loaded.service.remote.isSome = !options.offline := by
    simp only [loaded, Service.load, Service.ofStart, Options.remote]
    cases options.offline <;> rfl
  refine (isTicking_perform idle now .start).trans ?_
  rw [remote]
  exact Bool.and_true _

theorem isTicking_run (history : List (Instant × Operation)) :
    ∀ {here : Situation}, here.service.IsWellKept →
    (here.run history).service.isTicking =
      (here.service.remote.isSome && (lastSwitch? history).getD here.service.isTicking) := by
  induction history with
  | nil =>
    -- an operation that only reads leaves the service as it is
    exact fun kept => isTicking_perform kept .epoch .lastUpdate
  | cons item history ih =>
    intro here kept
    obtain ⟨now, operation⟩ := item
    rw [run, ih (isWellKept_perform kept now operation), (changes_perform here now operation).remote,
      isTicking_perform kept, lastSwitch?_cons]
    cases lastSwitch? history with
    | none => cases here.service.remote.isSome <;> rfl
    | some switch => rfl

/-! ## The ticks of a run -/

theorem interval_run (here : Situation) : ∀ history : List (Instant × Operation),
    (here.run history).service.interval = here.service.interval
  | [] => rfl
  | (now, operation) :: history =>
    (interval_run _ history).trans (interval_perform here now operation)

/-- The loads of a run are its ticks and one for each refresh that is asked for. -/
theorem length_loads (here : Situation) : ∀ history : List (Instant × Operation),
    (here.loads history).length = (here.ticks history).length +
      if here.service.remote.isSome then history.countP fun item => item.2.isRefresh else 0
  | [] => by simp [loads, ticks]
  | (now, operation) :: history => by
    have later := length_loads (here.perform now operation).2 history
    rw [(changes_perform here now operation).remote] at later
    rw [loads, ticks, List.length_append, later, List.length_append, List.countP_cons]
    cases operation with
    | refresh =>
      simp only [load?, nextLoad, tick?, Operation.isTick, Operation.isRefresh]
      cases here.service.remote with
      | none => rfl
      | some origin =>
        simp only [Option.map_some, Option.toList_some, List.length_singleton, Option.isSome_some,
          if_true, Bool.false_eq_true, if_false, Option.toList_none, List.length_nil]
        omega
    | tick =>
      simp only [tick?, Operation.isTick, Operation.isRefresh, if_true, Bool.false_eq_true,
        if_false, Nat.add_zero, Nat.add_assoc]
    | _ => simp only [load?, tick?, Operation.isTick, Operation.isRefresh, Bool.false_eq_true,
        if_false, Nat.add_zero, Option.toList_none, List.length_nil, Nat.zero_add]

/-- A service that is stopped takes no tick until it is started. -/
theorem ticks_of_idle (history : List (Instant × Operation)) :
    ∀ {here : Situation}, here.service.nextTick = none → (∀ item ∈ history, item.2 ≠ .start) →
    here.ticks history = [] := by
  induction history with
  | nil => exact fun _ _ => rfl
  | cons item history ih =>
    intro here idle stopped
    obtain ⟨now, operation⟩ := item
    obtain ⟨first, stopped⟩ := List.forall_mem_cons.1 stopped
    have next := nextTick_perform here now operation
    have tick : here.tick? now operation = none := by
      cases operation with
      | tick => exact load?_tick_of_idle idle now
      | _ => rfl
    rw [ticks, tick]
    refine ih ?_ stopped
    cases operation with
    | start => exact absurd rfl first
    | stop => exact next
    | tick =>
      rw [isDue, idle] at next
      exact next
    | _ => exact next.trans idle

/-- While a service refreshes itself, an operation that does not stop it leaves the next tick as it
is, or takes it in its time, and then the next one is due an interval later. -/
theorem step_of_ticking {here : Situation} {due : Instant} (h : here.service.nextTick = some due)
    (remote : here.service.remote.isSome) (now : Instant) {operation : Operation}
    (running : operation ≠ .stop) :
    ((operation = .tick → now.totalNanos < due.totalNanos) ∧ here.tick? now operation = none ∧
        (here.perform now operation).2.service.nextTick = some due) ∨
      operation = .tick ∧ due.totalNanos ≤ now.totalNanos ∧
        (∃ load, here.tick? now operation = some load ∧ load.time = now) ∧
        (here.perform now operation).2.service.nextTick =
          some (now.after here.service.interval) := by
  have next := nextTick_perform here now operation
  cases operation with
  | stop => exact absurd rfl running
  | start =>
    refine .inl ⟨nofun, rfl, ?_⟩
    rw [perform_start_of_isTicking (by rw [Service.isTicking, h]; rfl), h]
  | tick =>
    by_cases early : now.totalNanos < due.totalNanos
    · obtain ⟨none, same⟩ := tick_of_early h early
      exact .inl ⟨fun _ => early, none, by rw [same, h]⟩
    · have passed := Int.not_lt.1 early
      obtain ⟨origin, -, load, -, next⟩ := tick_of_due h remote passed
      exact .inr ⟨rfl, passed, ⟨_, load, rfl⟩, next⟩
  | _ => exact .inl ⟨nofun, rfl, next.trans h⟩

/-- While a service refreshes itself, the ticks that it has taken tell when the next one is due. -/
theorem nextTick_run (history : List (Instant × Operation)) :
    ∀ {here : Situation} {first : Instant}, here.service.nextTick = some first →
    here.service.remote.isSome → (∀ item ∈ history, item.2 ≠ .stop) →
    (here.run history).service.nextTick =
      some (dueAfter here.service.interval first (here.ticks history)) := by
  induction history with
  | nil => exact fun h _ _ => h
  | cons item history ih =>
    intro here first due remote running
    obtain ⟨now, operation⟩ := item
    obtain ⟨going, running'⟩ := List.forall_mem_cons.1 running
    have remote' : (here.perform now operation).2.service.remote.isSome := by
      rwa [(changes_perform here now operation).remote]
    -- what is due after the first operation is the `first` of the rest
    rw [run, ticks]
    rcases step_of_ticking due remote now going with
      ⟨-, none, next⟩ | ⟨-, -, ⟨load, taken, rfl⟩, next⟩
    · rw [ih next remote' running', interval_perform, none]
      rfl
    · rw [ih next remote' running', interval_perform, taken, Option.toList_some,
        List.singleton_append, dueAfter_cons]

/-- Ticks that come as soon as they are due come an interval apart. -/
theorem times_of_isPrompt (history : List (Instant × Operation)) :
    ∀ {here : Situation} {first : Instant}, here.service.nextTick = some first →
    here.service.remote.isSome → (∀ item ∈ history, item.2 ≠ .stop) → here.IsPrompt history →
    (here.ticks history).map (fun load => load.time.totalNanos) =
      (List.range (history.countP fun item => item.2.isTick)).map fun (i : Nat) =>
        first.totalNanos + i * (here.service.interval.nanos : Int) := by
  induction history with
  | nil => exact fun _ _ _ _ => rfl
  | cons item history ih =>
    intro here first due remote running prompt
    obtain ⟨now, operation⟩ := item
    obtain ⟨prompt, prompt'⟩ := prompt
    obtain ⟨going, running'⟩ := List.forall_mem_cons.1 running
    have remote' : (here.perform now operation).2.service.remote.isSome := by
      rwa [(changes_perform here now operation).remote]
    rw [ticks, List.countP_cons]
    rcases step_of_ticking due remote now going with
      ⟨early, none, next⟩ | ⟨rfl, -, ⟨load, taken, rfl⟩, next⟩
    · -- a prompt tick is in its time, so the operation is none
      have other : ¬ operation.isTick = true := by
        intro isTick
        have tick : operation = .tick := by
          cases operation with
          | tick => rfl
          | _ => cases isTick
        cases due.symm.trans (prompt isTick)
        exact absurd (early tick) (Int.lt_irrefl _)
      rw [none, if_neg other, Option.toList_none, List.nil_append,
        ih next remote' running' prompt', interval_perform, Nat.add_zero]
    · cases due.symm.trans (prompt rfl)
      have isTick : Operation.tick.isTick = true := rfl
      rw [taken, if_pos isTick, List.range_succ_eq_map, Option.toList_some,
        List.singleton_append, List.map_cons, List.map_cons, List.map_map,
        ih next remote' running' prompt', interval_perform]
      congr 1
      · simp
      · refine List.map_congr_left fun i _ => ?_
        simp only [Function.comp, Instant.totalNanos_after, Nat.succ_eq_add_one, Int.natCast_add,
          Int.add_mul]
        omega

/-! ## The life of the ticks -/

/-- A service refreshes itself, with its first tick at the given time, until it is stopped. -/
structure TicksFrom (here : Situation) (first : Instant) : Prop where
  /-- There is always a next tick. It is due at the given time, or else an interval after the last
  one, whatever that brought. -/
  next : ∀ history : List (Instant × Operation), (∀ item ∈ history, item.2 ≠ .stop) →
    (here.run history).service.nextTick =
      some (dueAfter here.service.interval first (here.ticks history))
  /-- Before it is due there is no tick. -/
  early : ∀ history : List (Instant × Operation), (∀ item ∈ history, item.2 ≠ .stop) →
    ∀ now : Instant,
      now.totalNanos < (dueAfter here.service.interval first (here.ticks history)).totalNanos →
      ((here.run history).perform now .tick).2 = here.run history
  /-- From then on a tick loads the remote origin, which it does once. -/
  due : ∀ history : List (Instant × Operation), (∀ item ∈ history, item.2 ≠ .stop) →
    ∀ now : Instant,
      (dueAfter here.service.interval first (here.ticks history)).totalNanos ≤ now.totalNanos →
      let there := here.run history
      ∃ remote, here.service.remote = some remote ∧
        there.load? now .tick = some ⟨there.service.loads, now,
          (remote.load there.service.loads there.disk now).1⟩ ∧
        (there.perform now .tick).2.service.loads = there.service.loads + 1
  /-- Ticks that come as soon as they are due come an interval apart. -/
  prompt : ∀ history : List (Instant × Operation), (∀ item ∈ history, item.2 ≠ .stop) →
    here.IsPrompt history →
    (here.ticks history).map (fun load => load.time.totalNanos) =
      (List.range (history.countP fun item => item.2.isTick)).map fun (i : Nat) =>
        first.totalNanos + i * (here.service.interval.nanos : Int)

theorem ticksFrom_of_nextTick {here : Situation} {first : Instant}
    (h : here.service.nextTick = some first) (remote : here.service.remote.isSome) :
    here.TicksFrom first where
  next history running := nextTick_run history h remote running
  early history running now early :=
    (tick_of_early (nextTick_run history h remote running) early).2
  due history running now passed := by
    have next := nextTick_run history h remote running
    obtain ⟨origin, has, load, loads, -⟩ :=
      tick_of_due next (by rwa [remote_run]) passed
    exact ⟨origin, by rw [← has, remote_run], load, loads⟩
  prompt history running prompt := times_of_isPrompt history h remote running prompt

theorem nextTick_start {here : Situation} (idle : here.service.isTicking = false)
    (remote : here.service.remote.isSome) (now : Instant) :
    (here.perform now .start).2.service.nextTick = some (now.after
      (Service.firstDelay here.service.lastUpdate now here.service.interval)) := by
  rw [nextTick_perform]
  refine if_neg ?_
  rw [idle, Option.isNone_eq_false_iff.2 remote]
  exact Bool.false_ne_true

/-- A service refreshes itself after a history if it has a remote origin and the history started it
and did not stop it later, or did neither and it refreshed itself before. Neither a start nor a stop
loads anything or replaces the table. A start while it refreshes itself changes nothing at all. A
start while it does not has the first tick come after what is left of the interval since the last
update, and from then on one tick an interval. After a stop, and until the next start, the remote
origin is loaded once for each refresh that is asked for. -/
theorem ticks_between_start_and_stop (here : Situation) (kept : here.service.IsWellKept)
    (history : List (Instant × Operation)) :
    let there := here.run history
    there.service.isTicking =
        (here.service.remote.isSome && (lastSwitch? history).getD here.service.isTicking) ∧
    (∀ now, ∀ operation ∈ [Operation.start, .stop],
      there.load? now operation = none ∧
        (there.perform now operation).2.service.active = there.service.active ∧
        (there.perform now operation).2.service.loads = there.service.loads) ∧
    (there.service.isTicking = true → ∀ now, (there.perform now .start).2 = there) ∧
    (there.service.isTicking = false → here.service.remote.isSome → ∀ now,
      TicksFrom (there.perform now .start).2 (now.after
        (Service.firstDelay there.service.lastUpdate now here.service.interval))) ∧
    (∀ now after, (∀ item ∈ after, item.2 ≠ .start) →
      let stopped := (there.perform now .stop).2
      stopped.ticks after = [] ∧
        (stopped.loads after).length =
          if here.service.remote.isSome then after.countP fun item => item.2.isRefresh else 0) := by
  have remote_eq := here.remote_run history
  refine ⟨isTicking_run history kept, ?_, perform_start_of_isTicking, ?_, ?_⟩
  · intro now operation mem
    have changes := changes_perform (here.run history) now operation
    have none : (here.run history).load? now operation = none := by
      simp only [List.mem_cons, List.not_mem_nil, or_false] at mem
      rcases mem with rfl | rfl <;> rfl
    rw [none] at changes
    exact ⟨none, changes.active, changes.loads⟩
  · intro idle remote now
    rw [← interval_run here history]
    rw [← remote_eq] at remote
    refine ticksFrom_of_nextTick (nextTick_start idle remote now) ?_
    rwa [(changes_perform (here.run history) now .start).remote]
  · intro now after stopped
    have none := ticks_of_idle after
      (nextTick_perform (here.run history) now .stop) stopped
    refine ⟨none, ?_⟩
    rw [length_loads, none, (changes_perform (here.run history) now .stop).remote, remote_eq,
      List.length_nil, Nat.zero_add]

/-- A service whose remote origin fails always. It was started twice, and ticks once an interval
nevertheless. -/
theorem ticks_between_start_and_stop_failing_remote :
    let here : Situation :=
      { service :=
          { Service.bundled with
            remote := some (.script fun _ => .error .offline)
            interval := .ofSeconds 10 }
        disk := .empty [] }
    (here.run [(.epoch, .start), (.ofSeconds 1, .start)]).service.isTicking = true ∧
      ((here.perform .epoch .start).2.ticks [(.epoch, .tick), (.ofSeconds 4, .start),
        (.ofSeconds 10, .tick), (.ofSeconds 20, .tick)]).map (fun load => load.time.totalNanos) =
        [0, 10000000000, 20000000000] ∧
      ((here.perform .epoch .stop).2.loads [(.epoch, .tick), (.ofSeconds 4, .refresh),
        (.ofSeconds 10, .tick)]).length = 1 := by
  intro here
  have kept : here.service.IsWellKept := Service.isWellKept_of_idle rfl
  obtain ⟨ticking, -⟩ :=
    ticks_between_start_and_stop here kept [(.epoch, .start), (.ofSeconds 1, .start)]
  obtain ⟨-, -, -, started, stopped⟩ := ticks_between_start_and_stop here kept []
  refine ⟨ticking, ?_, ?_⟩
  · refine ((started rfl rfl .epoch).prompt _ (by simp) ?_).trans (by decide +kernel)
    exact ⟨by decide +kernel, nofun, by decide +kernel, by decide +kernel, trivial⟩
  · exact (stopped .epoch _ (by simp)).2

end Situation

end TokenTariff
