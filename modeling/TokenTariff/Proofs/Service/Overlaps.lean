import TokenTariff.Proofs.Service.Runs
/-!
# Refreshes that overlap

A service may be refreshed from several sides at once. A refresh has two steps: it loads the remote
origin, and it publishes what came of that. Between the two the result is in flight, while other
refreshes load and publish. What is published replaces what is in use, whatever that is. So the
result that was published last is in use. It is the newest one if results are published in the
order of their loads, as they are if no refresh loads while another one is under way. A load that
was overtaken by a later one takes the place of the newer table.

* `Traffic` and `Traffic.move`: refreshes under way and their steps; `Traffic.run` takes a list of
  steps;
* `Traffic.loaded`, `Traffic.landed`: what a run loads and publishes, in order;
* `Traffic.land_after_load`: the two steps one after the other are `Service.refresh`;
* `Traffic.last_landed_is_active`: what is in use after any run.
-/

namespace TokenTariff
set_option autoImplicit false

theorem Service.loadRemote_of_some {service : Service} {remote : Remote}
    (h : service.remote = some remote) (disk : Disk) (now : Instant) :
    service.loadRemote disk now =
      (((remote.load service.loads disk now).1.bind Published.ofFetched).map fun published =>
          { published with updated := published.updated.or (some now) },
        { service with loads := service.loads + 1 }, (remote.load service.loads disk now).2) := by
  rw [loadRemote, h]

/-- The result of a load that can be published, with the number of the load. -/
structure Pending where
  number : Nat
  result : Published

def Pending.isOfLoad (number : Nat) (pending : Pending) : Bool :=
  pending.number == number

/-- What is put in use if a result is published at a time: its table with the time that came with
it, or else the time of the publication. -/
def Pending.publishedAt (pending : Pending) (now : Instant) : Published :=
  { pending.result with updated := pending.result.updated.or (some now) }

/-- A service with the results of the loads that were not published yet. -/
structure Traffic extends Situation where
  inFlight : List Pending

/-- A service of which no refresh is under way. -/
def Traffic.ofSituation (here : Situation) : Traffic :=
  { here with inFlight := [] }

/-- A step of a refresh. -/
inductive Move where
  | load (now : Instant)
  /-- Publishes the result of the load with the given number, if it is in flight. -/
  | land (number : Nat) (now : Instant)

namespace Traffic

/-! ## Steps -/

def pending? (here : Traffic) (now : Instant) : Option Pending :=
  (here.nextLoad now).bind fun load =>
    (load.fetched.bind Published.ofFetched).toOption.map (Pending.mk load.number)

/-- The result that a step brings in flight. -/
def loading? (here : Traffic) : Move → Option Pending
  | .load now => here.pending? now
  | .land _ _ => none

/-- The result that a step publishes, and the time at which it does. -/
def landing? (here : Traffic) : Move → Option (Pending × Instant)
  | .load _ => none
  | .land number now =>
    (here.inFlight.find? (Pending.isOfLoad number)).map fun pending => (pending, now)

def move (here : Traffic) : Move → Traffic
  | .load now =>
    let (_, service, disk) := here.service.loadRemote here.disk now
    { service, disk, inFlight := here.inFlight ++ (here.pending? now).toList }
  | .land number now =>
    match here.inFlight.find? (Pending.isOfLoad number) with
    | none => here
    | some pending =>
      { here with
        service := here.service.publish (pending.publishedAt now)
        inFlight := here.inFlight.eraseP (Pending.isOfLoad number) }

/-! ## Runs -/

def run (here : Traffic) : List Move → Traffic
  | [] => here
  | move :: moves => run (here.move move) moves

/-- The results that the loads of a run bring, in the order of the loads. -/
def loaded (here : Traffic) : List Move → List Pending
  | [] => []
  | move :: moves => (here.loading? move).toList ++ loaded (here.move move) moves

/-- The results that a run publishes, in the order in which it does, and when. -/
def landed (here : Traffic) : List Move → List (Pending × Instant)
  | [] => []
  | move :: moves => (here.landing? move).toList ++ landed (here.move move) moves

/-- Each result is published before those of later loads. -/
def LandsInOrder (here : Traffic) : List Move → Prop
  | [] => True
  | move :: moves =>
    (∀ pending now, here.landing? move = some (pending, now) →
      here.inFlight.head? = some pending) ∧ LandsInOrder (here.move move) moves

/-- No refresh loads while another one is under way. -/
def LoadsAlone (here : Traffic) : List Move → Prop
  | [] => True
  | move :: moves =>
    (∀ now, move = .load now → here.inFlight = []) ∧ LoadsAlone (here.move move) moves

/-! ## What a step does -/

theorem pending?_of_some {here : Traffic} {remote : Remote} (h : here.service.remote = some remote)
    (now : Instant) :
    here.pending? now =
      (((remote.load here.service.loads here.disk now).1.bind Published.ofFetched).toOption.map
        (Pending.mk here.service.loads)) := by
  rw [pending?, Situation.nextLoad, h]
  rfl

theorem load_of_none {here : Traffic} (h : here.service.remote = none) (now : Instant) :
    here.pending? now = none ∧ here.move (.load now) = here := by
  have none : here.pending? now = none := by
    rw [pending?, Situation.nextLoad, h]
    rfl
  refine ⟨none, ?_⟩
  rw [move, Service.loadRemote, h, none, Option.toList_none, List.append_nil]

theorem load_of_some {here : Traffic} {remote : Remote} (h : here.service.remote = some remote)
    (now : Instant) :
    here.move (.load now) =
      { service := { here.service with loads := here.service.loads + 1 }
        disk := (remote.load here.service.loads here.disk now).2
        inFlight := here.inFlight ++ (here.pending? now).toList } := by
  rw [move, Service.loadRemote_of_some h]

theorem land_of_none {here : Traffic} {number : Nat}
    (h : here.inFlight.find? (Pending.isOfLoad number) = none) (now : Instant) :
    here.move (.land number now) = here := by
  rw [move, h]

theorem land_of_some {here : Traffic} {number : Nat} {pending : Pending}
    (h : here.inFlight.find? (Pending.isOfLoad number) = some pending) (now : Instant) :
    here.move (.land number now) =
      { here with
        service := here.service.publish (pending.publishedAt now)
        inFlight := here.inFlight.eraseP (Pending.isOfLoad number) } := by
  rw [move, h]

theorem land_alone {here : Traffic} {pending : Pending} (h : here.inFlight = [pending])
    (now : Instant) :
    here.move (.land pending.number now) =
      { here with service := here.service.publish (pending.publishedAt now), inFlight := [] } := by
  have isIt : Pending.isOfLoad pending.number pending = true := beq_self_eq_true _
  rw [land_of_some (by rw [h]; exact List.find?_cons_of_pos isIt), h, List.eraseP_cons_of_pos isIt]

/-- A load and the publication of its result, with no other step between them, are a refresh. -/
theorem land_after_load (here : Traffic) (alone : here.inFlight = []) (now : Instant) :
    here.run [.load now, .land here.service.loads now] =
      { service := (here.service.refresh here.disk now).2.1
        disk := (here.service.refresh here.disk now).2.2
        inFlight := [] } := by
  rw [run, run, run]
  cases origin : here.service.remote with
  | none =>
    have nothing : here.inFlight.find? (Pending.isOfLoad here.service.loads) = none := by
      rw [alone]
      rfl
    rw [(load_of_none origin now).2, land_of_none nothing, Service.refresh_of_none origin, ← alone]
  | some remote =>
    have flying := pending?_of_some origin now
    rw [load_of_some origin, alone, List.nil_append, Service.refresh,
      Service.loadRemote_of_some origin]
    cases result : (remote.load here.service.loads here.disk now).1.bind Published.ofFetched with
    | error e =>
      rw [flying, result]
      exact land_of_none rfl now
    | ok published =>
      rw [flying, result]
      exact @land_alone _ ⟨here.service.loads, published⟩ rfl now

/-- What a step does if it brings some result in flight, or publishes one. -/
structure Changes (here next : Traffic) (loading : Option Pending)
    (landing : Option (Pending × Instant)) : Prop where
  remote : next.service.remote = here.service.remote
  loads : here.service.loads + loading.toList.length ≤ next.service.loads
  number : ∀ pending ∈ loading, pending.number = here.service.loads
  kept : (landing.toList.map Prod.fst ++ next.inFlight).Perm (here.inFlight ++ loading.toList)
  active : next.service.active = landing.elim here.service.active fun landed =>
    landed.1.publishedAt landed.2

theorem changes_none (here : Traffic) : Changes here here none none where
  remote := rfl
  loads := Nat.le_refl _
  number := nofun
  kept := .of_eq (List.append_nil _).symm
  active := rfl

theorem changes_load (here : Traffic) (now : Instant) :
    Changes here (here.move (.load now)) (here.pending? now) none := by
  cases origin : here.service.remote with
  | none =>
    obtain ⟨none, same⟩ := load_of_none origin now
    rw [none, same]
    exact here.changes_none
  | some remote =>
    rw [load_of_some origin]
    refine ⟨rfl, ?_, ?_, .refl _, rfl⟩
    · exact Nat.add_le_add_left Option.length_toList_le _
    · intro pending brought
      rw [pending?_of_some origin] at brought
      obtain ⟨published, -, rfl⟩ := Option.map_eq_some_iff.1 brought
      rfl

theorem changes_land (here : Traffic) (number : Nat) (now : Instant) :
    Changes here (here.move (.land number now)) none (here.landing? (.land number now)) := by
  rw [landing?]
  cases found : here.inFlight.find? (Pending.isOfLoad number) with
  | none =>
    rw [land_of_none found]
    exact here.changes_none
  | some pending =>
    obtain ⟨isIt, before, after, split, others⟩ := List.find?_eq_some_iff_append.1 found
    have left : here.inFlight.eraseP (Pending.isOfLoad number) = before ++ after := by
      rw [split, List.eraseP_append_right _ (by simpa using others), List.eraseP_cons_of_pos isIt]
    rw [land_of_some found, left]
    refine ⟨rfl, Nat.le_refl _, nofun, ?_, rfl⟩
    rw [split, Option.toList_none, List.append_nil]
    change (pending :: (before ++ after)).Perm (before ++ pending :: after)
    exact List.perm_middle.symm

theorem changes_move (here : Traffic) (move : Move) :
    Changes here (here.move move) (here.loading? move) (here.landing? move) := by
  cases move with
  | load now => exact here.changes_load now
  | land number now => exact here.changes_land number now

/-! ## What a run does -/

/-- Each result of a run, and each that was in flight before it, is published once or is in flight
at its end. -/
theorem perm_run (moves : List Move) : ∀ here : Traffic,
    ((here.landed moves).map Prod.fst ++ (here.run moves).inFlight).Perm
      (here.inFlight ++ here.loaded moves) := by
  induction moves with
  | nil =>
    intro here
    rw [landed, loaded, List.append_nil]
    exact .refl _
  | cons move moves ih =>
    intro here
    rw [landed, loaded, run, List.map_append, List.append_assoc, ← List.append_assoc here.inFlight]
    refine ((ih (here.move move)).append_left _).trans ?_
    rw [← List.append_assoc]
    exact (changes_move here move).kept.append_right _

theorem active_run (moves : List Move) : ∀ here : Traffic,
    (here.run moves).service.active =
      ((here.landed moves).getLast?.map fun last => last.1.publishedAt last.2).getD
        here.service.active := by
  induction moves with
  | nil => exact fun _ => rfl
  | cons move moves ih =>
    intro here
    rw [run, ih, landed, List.getLast?_append, (changes_move here move).active]
    cases (here.move move).landed moves |>.getLast? with
    | some last => rfl
    | none => cases here.landing? move <;> rfl

theorem le_number_of_mem_loaded (moves : List Move) : ∀ here : Traffic,
    ∀ pending ∈ here.loaded moves, here.service.loads ≤ pending.number := by
  induction moves with
  | nil => exact fun _ => nofun
  | cons move moves ih =>
    intro here pending mem
    rcases List.mem_append.1 mem with mem | mem
    · exact Nat.le_of_eq ((changes_move here move).number pending (Option.mem_toList.1 mem)).symm
    · exact Nat.le_trans (Nat.le_of_add_right_le (changes_move here move).loads) (ih _ pending mem)

/-- Each result of a run is what the remote origin gives to the load with its number. -/
theorem fetched_of_mem_loaded (moves : List Move) : ∀ here : Traffic,
    ∀ pending ∈ here.loaded moves, ∃ remote now fetched, here.service.remote = some remote ∧
      (∀ disk, (remote.load pending.number disk now).1 = .ok fetched) ∧
        Published.ofFetched fetched = .ok pending.result := by
  induction moves with
  | nil => exact fun _ => nofun
  | cons move moves ih =>
    intro here pending mem
    rcases List.mem_append.1 mem with mem | mem
    · cases move with
      | land number now => cases mem
      | load now =>
        obtain ⟨load, next, gives⟩ := Option.bind_eq_some_iff.1 (Option.mem_toList.1 mem)
        obtain ⟨published, accepted, rfl⟩ := Option.map_eq_some_iff.1 gives
        obtain ⟨-, remote, origin, gives⟩ := Situation.mem_nextLoad next
        obtain ⟨fetched, loaded, made⟩ := bind_eq_ok_iff.1 (toOption_eq_some_iff.1 accepted)
        exact ⟨remote, load.time, fetched, origin, fun disk => (gives disk).trans loaded, made⟩
    · rw [← (changes_move here move).remote]
      exact ih _ pending mem

theorem pairwise_loaded (moves : List Move) : ∀ here : Traffic,
    (here.loaded moves).Pairwise fun older newer => older.number < newer.number := by
  induction moves with
  | nil => exact fun _ => .nil
  | cons move moves ih =>
    intro here
    rw [loaded]
    cases brings : here.loading? move with
    | none => exact ih _
    | some pending =>
      have changes := changes_move here move
      rw [brings] at changes
      refine .cons (fun other mem => ?_) (ih _)
      rw [changes.number pending rfl]
      exact Nat.lt_of_lt_of_le changes.loads (le_number_of_mem_loaded moves _ other mem)

/-! ## Results that are published in order -/

/-- If results are published in the order of their loads, those that were and those in flight are
together the loaded ones, in this order. -/
theorem landed_of_landsInOrder (moves : List Move) : ∀ here : Traffic, here.LandsInOrder moves →
    (here.landed moves).map Prod.fst ++ (here.run moves).inFlight =
      here.inFlight ++ here.loaded moves := by
  induction moves with
  | nil => exact fun _ _ => (List.append_nil _).symm
  | cons move moves ih =>
    intro here inOrder
    obtain ⟨first, inOrder⟩ := inOrder
    rw [landed, loaded, run, List.map_append, List.append_assoc, ih _ inOrder,
      ← List.append_assoc, ← List.append_assoc]
    -- the rest of the run stands behind the same results on both sides
    congr 1
    cases move with
    | load now => rfl
    | land number now =>
      rw [landing?] at first ⊢
      cases found : here.inFlight.find? (Pending.isOfLoad number) with
      | none =>
        rw [land_of_none found]
        exact (List.append_nil _).symm
      | some pending =>
        rw [found] at first
        obtain ⟨rest, flying⟩ := List.head?_eq_some_iff.1 (first pending now rfl)
        rw [land_of_some found, flying, List.eraseP_cons_of_pos (List.find?_some found)]
        exact (List.append_nil _).symm

theorem landsInOrder_of_loadsAlone (moves : List Move) : ∀ here : Traffic,
    here.inFlight.length ≤ 1 → here.LoadsAlone moves → here.LandsInOrder moves := by
  induction moves with
  | nil => exact fun _ _ _ => trivial
  | cons move moves ih =>
    intro here few alone
    obtain ⟨first, alone⟩ := alone
    cases move with
    | load now =>
      refine ⟨nofun, ih _ ?_ alone⟩
      have none := first now rfl
      simp only [Traffic.move, none, List.nil_append]
      cases here.pending? now <;> simp
    | land number now =>
      constructor
      · intro pending later lands
        obtain ⟨_, found, same⟩ := Option.map_eq_some_iff.1 lands
        cases same
        -- the one result in flight is the one that lands
        have some := List.length_pos_of_mem (List.mem_of_find?_eq_some found)
        obtain ⟨other, only⟩ := List.length_eq_one_iff.1 (Nat.le_antisymm few some)
        rw [only] at found ⊢
        rw [List.mem_singleton.1 (List.mem_of_find?_eq_some found)]
        rfl
      · refine ih _ ?_ alone
        cases found : here.inFlight.find? (Pending.isOfLoad number) with
        | none => rwa [land_of_none found]
        | some pending =>
          rw [land_of_some found]
          exact Nat.le_trans (List.length_eraseP_le ..) few

/-! ## What is in use -/

/-- Once nothing is in flight, what was published last is the newest result or an older one. -/
theorem exists_last_landed {here : Traffic} {moves : List Move} (before : here.inFlight = [])
    (after : (here.run moves).inFlight = []) {newest : Pending}
    (brought : (here.loaded moves).getLast? = some newest) :
    ∃ last now, (here.landed moves).getLast? = some (last, now) ∧
      (here.run moves).service.active = last.publishedAt now ∧
      (last = newest ∨ last.number < newest.number) := by
  have kept := perm_run moves here
  have ascending := pairwise_loaded moves here
  have active := active_run moves here
  obtain ⟨older, split⟩ := List.getLast?_eq_some_iff.1 brought
  rw [before, after, List.nil_append, List.append_nil, split] at kept
  rw [split] at ascending
  cases lands : (here.landed moves).getLast? with
  | none =>
    rw [List.getLast?_eq_none_iff.1 lands] at kept
    exact absurd kept.length_eq (by simp)
  | some item =>
    obtain ⟨last, now⟩ := item
    rw [lands] at active
    refine ⟨last, now, rfl, active, ?_⟩
    have mem := kept.subset (List.mem_map_of_mem (List.mem_of_getLast? lands))
    rcases List.mem_append.1 mem with mem | mem
    · exact .inr ((List.pairwise_append.1 ascending).2.2 last mem newest List.mem_cons_self)
    · exact .inl (List.mem_singleton.1 mem)

/-- Refreshes that overlap in any way. Each load that can be published is published once or is in
flight at the end, and what was published last is in use. Once nothing is in flight, that is the
newest result or, if that was published before another one, an older one. It is the newest if no
publication replaces a newer result by an older one. None does if results are published in the order
of their loads, as they are if no refresh loads while another one is under way. -/
theorem last_landed_is_active (here : Situation) (moves : List Move) :
    let start := Traffic.ofSituation here
    let there := start.run moves
    let loaded := start.loaded moves
    let landed := start.landed moves
    (loaded.Pairwise fun older newer => older.number < newer.number) ∧
    (∀ pending ∈ loaded, ∃ remote now fetched, here.service.remote = some remote ∧
      (∀ disk, (remote.load pending.number disk now).1 = .ok fetched) ∧
        Published.ofFetched fetched = .ok pending.result) ∧
    (landed.map Prod.fst ++ there.inFlight).Perm loaded ∧
    there.service.active =
      (landed.getLast?.map fun last => last.1.publishedAt last.2).getD here.service.active ∧
    (there.inFlight = [] → ∀ newest, loaded.getLast? = some newest →
      ∃ last now, landed.getLast? = some (last, now) ∧
        there.service.active = last.publishedAt now ∧
        (last = newest ∨ last.number < newest.number)) ∧
    (((landed.map Prod.fst).Pairwise fun older newer => older.number < newer.number) →
      there.inFlight = [] → landed.map Prod.fst = loaded ∧
        ∀ newest, loaded.getLast? = some newest →
          ∃ now, there.service.active = newest.publishedAt now) ∧
    (start.LandsInOrder moves →
      (landed.map Prod.fst).Pairwise fun older newer => older.number < newer.number) ∧
    (start.LoadsAlone moves → start.LandsInOrder moves) := by
  intro start there loaded landed
  have alone : start.inFlight = [] := rfl
  have ascending := pairwise_loaded moves start
  have kept := perm_run moves start
  refine ⟨ascending, fetched_of_mem_loaded moves start, kept, active_run moves start,
    fun empty newest => exists_last_landed alone empty, fun inOrder empty => ?_, fun inOrder => ?_,
    landsInOrder_of_loadsAlone moves start (by rw [alone]; exact Nat.zero_le 1)⟩
  · -- two ascending lists of the same results are one list
    have same : landed.map Prod.fst = loaded := by
      refine List.Perm.eq_of_pairwise
        (fun _ _ _ _ older newer => absurd newer (Nat.lt_asymm older)) inOrder ascending ?_
      rwa [empty, alone, List.append_nil] at kept
    refine ⟨same, fun newest brought => ?_⟩
    obtain ⟨last, now, lands, published, -⟩ := exists_last_landed alone empty brought
    have latest : loaded.getLast? = some last := by
      rw [← same, List.getLast?_map, lands]
      rfl
    cases latest.symm.trans brought
    exact ⟨now, published⟩
  · have split := landed_of_landsInOrder moves start inOrder
    rw [alone, List.nil_append] at split
    rw [← split] at ascending
    exact (List.pairwise_append.1 ascending).1

/-- A service of which the first load brings one model, and each later one another. -/
def twoLists : Situation where
  service :=
    { Service.bundled with
      remote := some (.script fun number =>
        if number = 0 then .ok ⟨Bytes.ofText "\x7b\"early\":\x7b\x7d\x7d", some (.ofSeconds 10)⟩
        else .ok ⟨Bytes.ofText "\x7b\"later\":\x7b\x7d\x7d", some (.ofSeconds 20)⟩) }
  disk := .empty []

/-- Two refreshes, one after the other. -/
theorem last_landed_is_active_two_refreshes :
    let moves : List Move :=
      [.load .epoch, .land 0 .epoch, .load (.ofSeconds 30), .land 1 (.ofSeconds 30)]
    ∃ newest now, ((ofSituation twoLists).loaded moves).getLast? = some newest ∧
      newest.number = 1 ∧
      ((ofSituation twoLists).run moves).service.active = newest.publishedAt now := by
  intro moves
  have last : (((ofSituation twoLists).loaded moves).getLast?.map Pending.number) = some 1 := by
    decide +kernel
  obtain ⟨newest, brought, number⟩ := Option.map_eq_some_iff.1 last
  have alone : (ofSituation twoLists).LoadsAlone moves :=
    ⟨fun _ _ => by decide +kernel, nofun, fun _ _ => by decide +kernel, nofun, trivial⟩
  obtain ⟨-, -, -, -, -, newestLast, inOrder, landsInOrder⟩ :=
    last_landed_is_active twoLists moves
  obtain ⟨now, active⟩ :=
    (newestLast (inOrder (landsInOrder alone)) (by decide +kernel)).2 newest brought
  exact ⟨newest, now, brought, number, active⟩

/-- Two refreshes, of which the first is overtaken by the second: nothing is in flight in the end,
and the list of the first load is in use. -/
theorem overtaken_load_replaces_newer :
    let start := ofSituation twoLists
    let moves : List Move :=
      [.load .epoch, .load .epoch, .land 1 (.ofSeconds 30), .land 0 (.ofSeconds 30)]
    let there := start.run moves
    there.inFlight = [] ∧
      (start.loaded moves).map (fun pending => (pending.number, pending.result.updated)) =
        [(0, some (.ofSeconds 10)), (1, some (.ofSeconds 20))] ∧
      (start.landed moves).map (fun landed => landed.1.number) = [1, 0] ∧
      there.service.lastUpdate = some (.ofSeconds 10) ∧
      (there.service.table.resolve "early").isSome = true ∧
      (there.service.table.resolve "later").isNone = true := by
  decide +kernel

end Traffic

end TokenTariff
