/-
The loop of a cycle. It goes from time to time, and each player is always where the span of its harvest says
(`Player.Stands`); a round lets everybody go on who can (`Underway.playAll`), which uses up turns, so that the rounds of a
cycle are enough for it to come to its end, in time (`start_finish`).
-/
import SensorNode.Proofs.Harvest.Span

namespace SensorNode

open HarvestStep (span ending)

/-! ## One player -/

/-- how a player and its seat stand at a time of the cycle, the harvest of these steps having begun at time 0 or not yet -/
inductive Player.Stands (steps : List HarvestStep) (now : Nat) : Bool → Player.Stage → Seat.Status → Prop
  | fresh : Stands steps now false .fresh .harvesting
  | asleep {rest : List HarvestStep} {wake : Nat} (later : now ≤ wake) (left : wake + span rest = span steps)
      (same : ending rest = ending steps) : Stands steps now true (.playing rest wake) .harvesting
  | ended (past : span steps ≤ now) : Stands steps now true .over (ending steps)

/-- how many turns a player can still take, where no harvest sleeps more than `bound` times -/
def Player.Stage.turns (bound : Nat) : Player.Stage → Nat
  | .fresh => bound + 2
  | .playing rest _ => rest.countP HarvestStep.isSleep + 1
  | .over => 0

/-- the fleet once the harvest of a player that goes on has begun -/
def Player.begun (p : Player) (fleet : Fleet) : Fleet :=
  match p.stage with
  | .fresh => (fleet.beginHarvest p.sensor).1
  | _ => fleet

theorem Fleet.beginHarvest_finished (fleet : Fleet) (s : Sensor) (key : Nat) :
    ((fleet.beginHarvest s).1[key]?).map Instrument.finished = (fleet[key]?).map Instrument.finished := by
  unfold beginHarvest
  split
  · rw [← List.getElem?_map, ← List.getElem?_map, map_update]
    exact fun _ => rfl
  · rfl

theorem Fleet.endHarvest_finished (fleet : Fleet) (s : Sensor) (key : Nat) :
    ((fleet.endHarvest s)[key]?).map Instrument.finished =
      ((fleet[key]?).map Instrument.finished).map (· + if s.instrument = key then 1 else 0) := by
  simp only [endHarvest, update, List.getElem?_modify]
  cases fleet[key]? with
  | none => rfl
  | some i =>
    simp only [Option.map_eq_map, Option.map_some]
    split_ifs <;> rfl

namespace Harvesting

variable {fleet₀ fleet : Fleet} {sensors : List Sensor} {b now n : Nat} {h : Harvesting}

/-- how many harvests of an instrument have returned in the cycle -/
def returned (h : Harvesting) (key : Nat) : Nat :=
  (h.players.zip h.cycle.seats).countP fun x => x.1.sensor.instrument = key && x.2.status = .returned

/-- the turns that are left to all players together -/
def turns (bound : Nat) (h : Harvesting) : Nat := (h.players.map fun p => p.stage.turns bound).sum

/-- The cycle over these sensors is under way at this time, from time 0 on and with this fleet at its start; the first
`b` of its harvests have begun. -/
structure Underway (fleet₀ : Fleet) (sensors : List Sensor) (b now : Nat) (h : Harvesting) (fleet : Fleet) : Prop where
  seated : ∀ (n : Nat) (s : Sensor) (steps : List HarvestStep), sensors[n]? = some s →
    (fleet₀.harvests sensors)[n]? = some steps → ∃ stage status, h.players[n]? = some ⟨s, stage⟩ ∧
      h.cycle.seats[n]? = some ⟨s.id, status⟩ ∧ Player.Stands steps now (n < b) stage status
  players : h.players.length = sensors.length
  seats : h.cycle.seats.length = sensors.length
  prompt : b < sensors.length → now = 0
  ahead : fleet.harvests (sensors.drop b) = (fleet₀.harvests sensors).drop b
  finished : ∀ key : Nat, (fleet[key]?).map Instrument.finished =
    ((fleet₀[key]?).map Instrument.finished).map (· + h.returned key)

theorem start_underway (fleet : Fleet) (sensors : List Sensor) (metrics : List Metric) (timeout : Duration) :
    (start sensors metrics 0 timeout).Underway fleet sensors 0 0 fleet where
  seated n s steps hs _ := by
    refine ⟨.fresh, .harvesting, ?_, ?_, .fresh⟩
    · simp [start, hs]
    · simp [start, Cycle.start, hs]
  players := by simp [start]
  seats := by simp [start, Cycle.start]
  prompt _ := rfl
  ahead := rfl
  finished key := by
    have hnone : (start sensors metrics 0 timeout).returned key = 0 := by
      refine List.countP_eq_zero.2 fun x hx => ?_
      have hseat : x.2 ∈ (start sensors metrics 0 timeout).cycle.seats := (List.of_mem_zip hx).2
      obtain ⟨id, -, hid⟩ := List.mem_map.1 hseat
      simp [← hid]
    simp [hnone, Function.comp_def]

/-- there is a player in each seat, with a harvest to play -/
theorem exists_seat (fleet₀ : Fleet) (hn : n < sensors.length) :
    ∃ s steps, sensors[n]? = some s ∧ (fleet₀.harvests sensors)[n]? = some steps :=
  ⟨_, _, List.getElem?_eq_getElem hn,
    List.getElem?_eq_getElem (by rwa [Fleet.length_harvests])⟩

/-! ## One turn -/

theorem play_of_ready {p : Player} (hp : h.players[n]? = some p) (hready : p.isReady now = true) (fleet : Fleet) :
    h.play now n fleet =
      ({ h with
          cycle := (Player.play now n (p.steps fleet) h.cycle).1
          players := h.players.set n { p with stage := (Player.play now n (p.steps fleet) h.cycle).2 } },
        if ((Player.play now n (p.steps fleet) h.cycle).1.seats[n]?.map Seat.status) = some .returned
        then (p.begun fleet).endHarvest p.sensor else p.begun fleet) := by
  obtain ⟨sensor, stage⟩ := p
  unfold play
  simp only [hp, hready, if_true]
  cases stage <;> rfl

theorem play_of_not_ready {p : Player} (hp : h.players[n]? = some p) (hready : p.isReady now = false) (fleet : Fleet) :
    h.play now n fleet = (h, fleet) := by
  simp [play, hp, hready]

/-- the turns that are left when a player is in a new stage -/
theorem turns_set {p : Player} (hp : h.players[n]? = some p) (stage : Player.Stage) (cycle : Cycle) (bound : Nat) :
    turns bound { h with cycle := cycle, players := h.players.set n { p with stage := stage } } + p.stage.turns bound =
      h.turns bound + stage.turns bound := by
  obtain ⟨hlt, hget⟩ := List.getElem?_eq_some_iff.1 hp
  have hbefore : h.players.Perm (p :: h.players.eraseIdx n) := (hget ▸ List.getElem_cons_eraseIdx_perm hlt).symm
  have hafter : (h.players.set n { p with stage := stage }).Perm
      ({ p with stage := stage } :: h.players.eraseIdx n) := List.set_perm_cons_eraseIdx hlt _
  have hold : h.turns bound = p.stage.turns bound + ((h.players.eraseIdx n).map fun p => p.stage.turns bound).sum :=
    (hbefore.map fun p : Player => p.stage.turns bound).sum_eq
  have hnew : ((h.players.set n { p with stage := stage }).map fun p => p.stage.turns bound).sum =
      stage.turns bound + ((h.players.eraseIdx n).map fun p => p.stage.turns bound).sum :=
    (hafter.map fun p : Player => p.stage.turns bound).sum_eq
  simp only [turns] at hold ⊢
  omega

/-- the harvests that have returned when a player and its seat are in a new state -/
theorem returned_set {p : Player} {source : String} (hp : h.players[n]? = some p)
    (hseat : h.cycle.seats[n]? = some ⟨source, .harvesting⟩) (stage : Player.Stage) (status : Seat.Status)
    {cycle : Cycle} (hcycle : cycle.seats = h.cycle.seats.set n ⟨source, status⟩) (key : Nat) :
    returned { h with cycle := cycle, players := h.players.set n { p with stage := stage } } key =
      h.returned key + if p.sensor.instrument = key ∧ status = .returned then 1 else 0 := by
  have hzip : (h.players.zip h.cycle.seats)[n]? = some (p, ⟨source, .harvesting⟩) :=
    List.getElem?_zip_eq_some.2 ⟨hp, hseat⟩
  obtain ⟨hlt, hget⟩ := List.getElem?_eq_some_iff.1 hzip
  have hset : (h.players.set n { p with stage := stage }).zip (h.cycle.seats.set n ⟨source, status⟩) =
      (h.players.zip h.cycle.seats).set n ({ p with stage := stage }, ⟨source, status⟩) := by
    refine List.ext_getElem? fun m => ?_
    rw [List.getElem?_set]
    split_ifs with hm
    · subst hm
      refine List.getElem?_zip_eq_some.2 ⟨?_, ?_⟩
      · exact List.getElem?_set_self (List.getElem?_eq_some_iff.1 hp).1
      · exact List.getElem?_set_self (List.getElem?_eq_some_iff.1 hseat).1
    · simp only [List.zip_eq_zipWith, List.getElem?_zipWith, List.getElem?_set_ne hm]
  rw [returned, hcycle, hset, List.countP_set hlt, hget, returned]
  simp

/-- What a turn leaves of a cycle that is under way: the player in seat `n` goes on with steps that are left to it, and the
others stay as they are. The harvests that have begun are then the first `b'`. -/
theorem Underway.turn (hu : h.Underway fleet₀ sensors b now fleet) {s : Sensor} {steps left : List HarvestStep}
    {stage stage' : Player.Stage} {cycle : Cycle} {fleet' : Fleet} {b' : Nat} (hs : sensors[n]? = some s)
    (hsteps : (fleet₀.harvests sensors)[n]? = some steps) (hp : h.players[n]? = some ⟨s, stage⟩)
    (hseat : h.cycle.seats[n]? = some ⟨s.id, .harvesting⟩)
    (hturn : Player.Turn now n s.id left h.cycle.seats cycle.seats stage') (hspan : now + span left = span steps)
    (hending : ending left = ending steps) (hn : n < b') (hother : ∀ m, m ≠ n → (m < b' ↔ m < b)) (hb : b ≤ b')
    (hahead : fleet'.harvests (sensors.drop b') = (fleet₀.harvests sensors).drop b')
    (hfinished : ∀ key : Nat, (fleet'[key]?).map Instrument.finished = (fleet[key]?).map Instrument.finished) :
    Underway fleet₀ sensors b' now { h with cycle := cycle, players := h.players.set n ⟨s, stage'⟩ }
      (if (cycle.seats[n]?.map Seat.status) = some .returned then fleet'.endHarvest s else fleet') := by
  have hlt : n < h.players.length := (List.getElem?_eq_some_iff.1 hp).1
  have hlt' : n < h.cycle.seats.length := (List.getElem?_eq_some_iff.1 hseat).1
  obtain ⟨status, hset, hstands⟩ : ∃ status, cycle.seats = h.cycle.seats.set n ⟨s.id, status⟩ ∧
      Player.Stands steps now true stage' status := by
    generalize cycle.seats = seats at hturn
    cases hturn with
    | sleeps later span same =>
      refine ⟨.harvesting, ?_, .asleep later (span.trans hspan) (same.trans hending)⟩
      rw [← (List.getElem?_eq_some_iff.1 hseat).2, List.set_getElem_self]
    | ends span =>
      refine ⟨ending steps, by rw [hending], .ended ?_⟩
      omega
  have hnow : cycle.seats[n]? = some ⟨s.id, status⟩ := by rw [hset, List.getElem?_set_self hlt']
  refine ⟨fun m t u hm hu' => ?_, ?_, ?_, fun hlt => hu.prompt (lt_of_le_of_lt hb hlt), ?_, fun key => ?_⟩
  · by_cases hmn : m = n
    · subst hmn
      obtain rfl : s = t := Option.some.inj (hs.symm.trans hm)
      obtain rfl : steps = u := Option.some.inj (hsteps.symm.trans hu')
      exact ⟨stage', status, List.getElem?_set_self hlt, hnow, by rwa [decide_eq_true hn]⟩
    · obtain ⟨stage, status, hp, hseat, hstands⟩ := hu.seated m t u hm hu'
      refine ⟨stage, status, ?_, ?_, ?_⟩
      · rw [← hp]
        exact List.getElem?_set_ne (Ne.symm hmn)
      · rw [← hseat, hset]
        exact List.getElem?_set_ne (Ne.symm hmn)
      · rwa [show decide (m < b') = decide (m < b) from decide_eq_decide.2 (hother m hmn)]
  · rw [List.length_set, hu.players]
  · rw [hset, List.length_set, hu.seats]
  · split_ifs
    · rw [Fleet.harvests_endHarvest, hahead]
    · exact hahead
  · rw [returned_set hp hseat stage' status hset key, hnow]
    simp only [Option.map_some, Option.some.injEq]
    split_ifs with hreturned hcount hcount
    · rw [Fleet.endHarvest_finished, hfinished key, hu.finished key, if_pos hcount.1]
      simp [Function.comp_def, Nat.add_assoc]
    · rw [Fleet.endHarvest_finished, hfinished key, hu.finished key, if_neg fun hkey => hcount ⟨hkey, hreturned⟩]
      simp [Function.comp_def]
    · exact absurd hcount.2 hreturned
    · rw [hfinished key, hu.finished key]
      rfl

/-- the harvest that begins next is the one that was to begin in its seat -/
theorem Underway.next (hu : h.Underway fleet₀ sensors b now fleet) {s : Sensor} {steps : List HarvestStep}
    (hs : sensors[b]? = some s) (hsteps : (fleet₀.harvests sensors)[b]? = some steps) :
    (fleet.beginHarvest s).2 = steps ∧
      (fleet.beginHarvest s).1.harvests (sensors.drop (b + 1)) = (fleet₀.harvests sensors).drop (b + 1) := by
  obtain ⟨hlt, hget⟩ := List.getElem?_eq_some_iff.1 hs
  obtain ⟨hlt', hget'⟩ := List.getElem?_eq_some_iff.1 hsteps
  have hahead := hu.ahead
  rw [List.drop_eq_getElem_cons hlt, List.drop_eq_getElem_cons hlt', hget, hget', Fleet.harvests] at hahead
  exact List.cons.inj hahead

/-- A cycle that is under way stays so when the next player begins or one that has begun goes on. -/
theorem Underway.play (hu : h.Underway fleet₀ sensors b now fleet) (hn : n < sensors.length) (hnb : n ≤ b) :
    (h.play now n fleet).1.Underway fleet₀ sensors (max b (n + 1)) now (h.play now n fleet).2 := by
  obtain ⟨s, steps, hs, hsteps⟩ := exists_seat fleet₀ hn
  obtain ⟨stage, status, hp, hseat, hstands⟩ := hu.seated n s steps hs hsteps
  rcases Nat.lt_or_eq_of_le hnb with hlt | rfl
  · -- it has begun
    rw [show max b (n + 1) = b from max_eq_left hlt]
    rw [decide_eq_true hlt] at hstands
    cases hstands with
    | @asleep rest wake later left same =>
      by_cases hwake : wake ≤ now
      · obtain rfl : now = wake := le_antisymm later hwake
        rw [play_of_ready hp (decide_eq_true hwake)]
        exact hu.turn hs hsteps hp hseat (Player.play_turn now n s.id rest h.cycle hseat) left same hlt
          (fun _ _ => Iff.rfl) le_rfl hu.ahead fun _ => rfl
      · rw [play_of_not_ready hp (decide_eq_false hwake)]
        exact hu
    | ended past =>
      rw [play_of_not_ready hp rfl]
      exact hu
  · -- it begins, at time 0
    rw [show max n (n + 1) = n + 1 from max_eq_right (Nat.le_succ n)]
    rw [decide_eq_false (lt_irrefl n)] at hstands
    cases hstands
    obtain rfl := hu.prompt hn
    obtain ⟨hsame, hrest⟩ := hu.next hs hsteps
    rw [play_of_ready hp rfl]
    refine hu.turn hs hsteps hp hseat (Player.play_turn 0 n s.id _ h.cycle hseat) ?_ ?_ (Nat.lt_succ_self n) ?_
      (Nat.le_succ n) hrest fun key => fleet.beginHarvest_finished s key
    · exact (Nat.zero_add _).trans (congrArg span hsame)
    · exact congrArg ending hsame
    · intro m hm
      omega

/-! ## One round -/

theorem play_players_of_ne {m : Nat} (hne : m ≠ n) (h : Harvesting) (now : Nat) (fleet : Fleet) :
    (h.play now n fleet).1.players[m]? = h.players[m]? := by
  rcases h.play_cases now n fleet with ⟨hsame, -, -⟩ | ⟨p, stage, -, -, hplay⟩
  · rw [hsame]
  · rw [hplay]
    exact List.getElem?_set_ne (Ne.symm hne)

/-- a player that goes on uses up a turn -/
theorem Underway.play_turns (hu : h.Underway fleet₀ sensors b now fleet) (hn : n < sensors.length) (hnb : n ≤ b)
    {p : Player} (hp : h.players[n]? = some p) (hready : p.isReady now = true) :
    turns fleet₀.longest (h.play now n fleet).1 < turns fleet₀.longest h := by
  obtain ⟨s, steps, hs, hsteps⟩ := exists_seat fleet₀ hn
  obtain ⟨stage, status, hp', hseat, hstands⟩ := hu.seated n s steps hs hsteps
  obtain rfl : _ = p := Option.some.inj (hp'.symm.trans hp)
  rw [play_of_ready hp hready]
  have hset := turns_set hp (Player.play now n (Player.steps ⟨s, stage⟩ fleet) h.cycle).2
    (Player.play now n (Player.steps ⟨s, stage⟩ fleet) h.cycle).1 fleet₀.longest
  -- what is left of the steps sleeps less often than what there was
  have hless : ∀ left : List HarvestStep, h.cycle.seats[n]? = some ⟨s.id, .harvesting⟩ →
      (Player.play now n left h.cycle).2.turns fleet₀.longest < left.countP HarvestStep.isSleep + 1 := by
    intro left hseat
    have hturn := Player.play_turn now n s.id left h.cycle hseat
    generalize (Player.play now n left h.cycle).2 = stage' at hturn
    generalize (Player.play now n left h.cycle).1.seats = seats at hturn
    cases hturn with
    | sleeps later span ending fewer => exact Nat.succ_lt_succ fewer
    | ends span => exact Nat.succ_pos _
  generalize hbegun : decide (n < b) = begun at hstands
  cases hstands with
  | fresh =>
    have hcount : ((fleet.beginHarvest s).2).countP HarvestStep.isSleep ≤ fleet₀.longest := by
      obtain rfl : n = b := le_antisymm hnb (Nat.le_of_not_lt (of_decide_eq_false hbegun))
      rw [(hu.next hs hsteps).1]
      exact fleet₀.harvests_isSleep_le sensors _ (List.mem_of_getElem? hsteps)
    have := hless (fleet.beginHarvest s).2 hseat
    simp only [Player.steps, Player.Stage.turns] at hset this ⊢
    omega
  | @asleep rest wake later left same =>
    have := hless rest hseat
    simp only [Player.steps, Player.Stage.turns] at hset this ⊢
    omega
  | ended past => exact absurd hready Bool.false_ne_true

/-- A round over the first `k` seats: their harvests have begun, the other players are where they were, and whoever could
go on has used up a turn. -/
theorem Underway.round (hu : h.Underway fleet₀ sensors b now fleet) (k : Nat) (hk : k ≤ sensors.length) :
    ∀ r, r = (List.range k).foldl (fun (r : Harvesting × Fleet) n => r.1.play now n r.2) (h, fleet) →
      r.1.Underway fleet₀ sensors (max b k) now r.2 ∧ (∀ m, k ≤ m → r.1.players[m]? = h.players[m]?) ∧
      r.1.turns fleet₀.longest ≤ h.turns fleet₀.longest ∧
      ((∃ m < k, ∃ p, h.players[m]? = some p ∧ p.isReady now = true) →
        r.1.turns fleet₀.longest < h.turns fleet₀.longest) := by
  induction k with
  | zero =>
    rintro r rfl
    exact ⟨by rwa [Nat.max_zero], fun _ _ => rfl, le_rfl, fun ⟨m, hm, _⟩ => absurd hm (Nat.not_lt_zero m)⟩
  | succ k ih =>
    rintro r rfl
    rw [List.range_succ, List.foldl_append, List.foldl_cons, List.foldl_nil]
    obtain ⟨hu', hrest, hle, hlt⟩ := ih (Nat.le_of_succ_le hk) _ rfl
    generalize (List.range k).foldl (fun (r : Harvesting × Fleet) n => r.1.play now n r.2) (h, fleet) = r at *
    have hkb : k ≤ max b k := le_max_right b k
    have hplay := hu'.play hk hkb
    have hturns : (r.1.play now k r.2).1.turns fleet₀.longest ≤ r.1.turns fleet₀.longest := by
      rcases Nat.lt_or_ge k r.1.players.length with hlen | hlen
      · by_cases hready : r.1.players[k].isReady now = true
        · exact (hu'.play_turns hk hkb (List.getElem?_eq_getElem hlen) hready).le
        · rw [play_of_not_ready (List.getElem?_eq_getElem hlen) (Bool.eq_false_iff.2 hready)]
      · exact absurd (hu'.players ▸ hlen) (Nat.not_le.2 hk)
    refine ⟨?_, fun m hm => ?_, hturns.trans hle, ?_⟩
    · rwa [max_assoc, max_eq_right (Nat.le_succ k)] at hplay
    · rw [play_players_of_ne (Nat.ne_of_gt hm), hrest m (Nat.le_of_succ_le hm)]
    · rintro ⟨m, hm, p, hp, hready⟩
      rcases Nat.lt_succ_iff_lt_or_eq.1 hm with hm | rfl
      · exact hturns.trans_lt (hlt ⟨m, hm, p, hp, hready⟩)
      · rw [← hrest m le_rfl] at hp
        exact (hu'.play_turns hk hkb hp hready).trans_le hle

theorem Underway.playAll (hu : h.Underway fleet₀ sensors b now fleet) (hb : b ≤ sensors.length) :
    (h.playAll now fleet).1.Underway fleet₀ sensors sensors.length now (h.playAll now fleet).2 ∧
      ((∃ (n : Nat) (p : Player), h.players[n]? = some p ∧ p.isReady now = true) →
        (h.playAll now fleet).1.turns fleet₀.longest < h.turns fleet₀.longest) := by
  obtain ⟨hround, -, -, hturns⟩ := hu.round sensors.length le_rfl (h.playAll now fleet)
    (by rw [Harvesting.playAll, hu.players])
  rw [max_eq_right hb] at hround
  refine ⟨hround, fun ⟨n, p, hp, hready⟩ => hturns ⟨n, ?_, p, hp, hready⟩⟩
  rw [← hu.players]
  exact (List.getElem?_eq_some_iff.1 hp).1

theorem playAll_deadline (h : Harvesting) (now : Nat) (fleet : Fleet) :
    (h.playAll now fleet).1.deadline = h.deadline := by
  unfold Harvesting.playAll
  generalize List.range h.players.length = seats
  induction seats generalizing h fleet with
  | nil => rfl
  | cons n seats ih =>
    rw [List.foldl_cons, ih]
    exact h.play_deadline now n fleet

/-! ## The loop -/

theorem nextTime_mem (h : Harvesting) :
    (h.nextTime = h.deadline ∨ ∃ p ∈ h.players, p.wake? = some h.nextTime) ∧ h.nextTime ≤ h.deadline ∧
      ∀ p ∈ h.players, ∀ wake, p.wake? = some wake → h.nextTime ≤ wake := by
  have hmin : (h.deadline :: h.players.filterMap Player.wake?).min? = some h.nextTime := List.min?_cons'
  obtain ⟨hmem, hle⟩ := List.min?_eq_some_iff.1 hmin
  refine ⟨(List.mem_cons.1 hmem).imp_right List.mem_filterMap.1, hle _ List.mem_cons_self, fun p hp wake hwake => ?_⟩
  exact hle wake (List.mem_cons_of_mem _ (List.mem_filterMap.2 ⟨p, hp, hwake⟩))

/-- a cycle that is due while somebody is still harvesting has come to its deadline -/
theorem deadline_le_of_harvesting {source : String} (hdue : h.isDue now = true)
    (hseat : h.cycle.seats[n]? = some ⟨source, .harvesting⟩) : h.deadline ≤ now := by
  have hnot : ¬h.cycle.isOver = true := fun hover => by
    have hended := List.all_eq_true.1 hover _ (List.mem_of_getElem? hseat)
    simp at hended
  simpa only [isDue, hnot, Bool.false_or, decide_eq_true_eq] using hdue

/-- the latest end of a harvest -/
def latest (fleet : Fleet) (sensors : List Sensor) : Nat := ((fleet.harvests sensors).map span).foldl max 0

/-- The clock of a cycle is in time: it is not beyond the deadline, nor beyond the last harvest unless it has come to the
deadline; and until then somebody can go on. -/
structure Timely (fleet₀ : Fleet) (sensors : List Sensor) (now : Nat) (h : Harvesting) : Prop where
  inTime : now ≤ h.deadline
  early : now < h.deadline ∨ h.cycle.isOver = true → now ≤ latest fleet₀ sensors
  ready : h.isDue now = false → ∃ (n : Nat) (p : Player), h.players[n]? = some p ∧ p.isReady now = true

/-- a player that sleeps wakes up now or later, and no later than its harvest ends -/
theorem Underway.wake (hu : h.Underway fleet₀ sensors b now fleet) {p : Player} {wake : Nat} (hp : p ∈ h.players)
    (hwake : p.wake? = some wake) : now ≤ wake ∧ wake ≤ latest fleet₀ sensors := by
  obtain ⟨n, hn⟩ := List.mem_iff_getElem?.1 hp
  have hlt : n < sensors.length := hu.players ▸ (List.getElem?_eq_some_iff.1 hn).1
  obtain ⟨s, steps, hs, hsteps⟩ := exists_seat fleet₀ hlt
  obtain ⟨stage, status, hp', -, hstands⟩ := hu.seated n s steps hs hsteps
  obtain rfl : _ = p := Option.some.inj (hp'.symm.trans hn)
  generalize decide (n < b) = begun at hstands
  cases hstands with
  | fresh => exact absurd hwake (by simp [Player.wake?])
  | asleep later left same =>
    obtain rfl := Option.some.inj hwake
    have hspan : span steps ≤ latest fleet₀ sensors :=
      le_foldl_max (List.mem_map_of_mem (List.mem_of_getElem? hsteps))
    exact ⟨later, by omega⟩
  | ended past => exact absurd hwake (by simp [Player.wake?])

theorem Underway.later (hu : h.Underway fleet₀ sensors sensors.length now fleet) {now' : Nat} (hle : now ≤ now')
    (hwake : ∀ p ∈ h.players, ∀ wake, p.wake? = some wake → now' ≤ wake) :
    h.Underway fleet₀ sensors sensors.length now' fleet := by
  refine ⟨fun n s steps hs hsteps => ?_, hu.players, hu.seats, fun h => absurd h (lt_irrefl _), hu.ahead, hu.finished⟩
  obtain ⟨stage, status, hp, hseat, hstands⟩ := hu.seated n s steps hs hsteps
  refine ⟨stage, status, hp, hseat, ?_⟩
  generalize decide (n < sensors.length) = begun at hstands
  cases hstands with
  | fresh => exact .fresh
  | asleep later left same => exact .asleep (hwake _ (List.mem_of_getElem? hp) _ rfl) left same
  | ended past => exact .ended (past.trans hle)

/-- the clock does not go back -/
theorem Underway.now_le_nextTime (hu : h.Underway fleet₀ sensors b now fleet) (hnow : now ≤ h.deadline) :
    now ≤ h.nextTime := by
  rcases h.nextTime_mem.1 with heq | ⟨p, hp, hwakes⟩
  · exact heq ▸ hnow
  · exact (hu.wake hp hwakes).1

/-- when nobody can go on any more at this time and the cycle is not due, it goes on in time -/
theorem Underway.timely (hu : h.Underway fleet₀ sensors sensors.length now fleet) (hdue : h.isDue now = false) :
    h.Underway fleet₀ sensors sensors.length h.nextTime fleet ∧ h.Timely fleet₀ sensors h.nextTime := by
  obtain ⟨hmem, hle, hwake⟩ := h.nextTime_mem
  simp only [isDue, Bool.or_eq_false_iff, decide_eq_false_iff_not, not_le] at hdue
  refine ⟨hu.later (hu.now_le_nextTime hdue.2.le) hwake, hle, fun hearly => ?_, fun hdue' => ?_⟩
  · rcases hmem with heq | ⟨p, hp, hwakes⟩
    · rcases hearly with hlt | hover
      · omega
      · exact absurd (hover.symm.trans hdue.1) (by decide)
    · exact (hu.wake hp hwakes).2
  · simp only [isDue, Bool.or_eq_false_iff, decide_eq_false_iff_not, not_le] at hdue'
    rcases hmem with heq | ⟨p, hp, hwakes⟩
    · omega
    · obtain ⟨n, hn⟩ := List.mem_iff_getElem?.1 hp
      refine ⟨n, p, hn, ?_⟩
      obtain ⟨sensor, stage⟩ := p
      cases stage with
      | playing rest wake => exact decide_eq_true (Option.some.inj hwakes).le
      | _ => exact absurd hwakes (by simp [Player.wake?])

/-- The loop comes to its end in time, with every harvest begun, as long as it has a round for each turn that is left. -/
theorem Underway.finish (fuel : Nat) (hu : h.Underway fleet₀ sensors b now fleet) (hb : b ≤ sensors.length)
    (hbegun : h.isDue now = true → b = sensors.length) (ht : h.Timely fleet₀ sensors now)
    (hfuel : h.turns fleet₀.longest < fuel) :
    ∀ r, r = Harvesting.finish fuel h now fleet → r.1.deadline = h.deadline ∧
      r.1.Underway fleet₀ sensors sensors.length r.2.1 r.2.2 ∧ r.1.Timely fleet₀ sensors r.2.1 ∧
      r.1.isDue r.2.1 = true := by
  induction fuel generalizing h now fleet b with
  | zero => exact absurd hfuel (Nat.not_lt_zero _)
  | succ fuel ih =>
    rintro r rfl
    rw [Harvesting.finish]
    by_cases hdue : h.isDue now = true
    · rw [if_pos hdue]
      exact ⟨rfl, hbegun hdue ▸ hu, ht, hdue⟩
    · rw [if_neg hdue]
      obtain ⟨hround, hturns⟩ := hu.playAll hb
      have hless := hturns (ht.ready (Bool.eq_false_iff.2 hdue))
      have hdeadline := h.playAll_deadline now fleet
      generalize h.playAll now fleet = next at *
      obtain ⟨h', fleet'⟩ := next
      dsimp only at *
      have hnow : now < h'.deadline := by
        simp only [isDue, Bool.or_eq_true, decide_eq_true_eq, not_or, not_le] at hdue
        exact hdeadline ▸ hdue.2
      by_cases hdue' : h'.isDue now = true
      · rw [if_pos hdue']
        have hearly : now ≤ latest fleet₀ sensors := ht.early (Or.inl (hdeadline ▸ hnow))
        refine ⟨hdeadline, hround, ⟨hnow.le, fun _ => hearly, fun hnot => ?_⟩, hdue'⟩
        exact absurd (hdue'.symm.trans hnot) (by decide)
      · rw [if_neg hdue']
        obtain ⟨hlater, htimely⟩ := hround.timely (Bool.eq_false_iff.2 hdue')
        obtain ⟨hsame, hrest⟩ := ih hlater le_rfl (fun _ => rfl) htimely (by omega) _ rfl
        exact ⟨hsame.trans hdeadline, hrest⟩

/-- a loop that has come to its end stays there, whatever rounds it would still have -/
theorem finish_add (fuel more : Nat) (h : Harvesting) (now : Nat) (fleet : Fleet)
    (hdue : (Harvesting.finish fuel h now fleet).1.isDue (Harvesting.finish fuel h now fleet).2.1 = true) :
    Harvesting.finish (fuel + more) h now fleet = Harvesting.finish fuel h now fleet := by
  induction fuel generalizing h now fleet with
  | zero =>
    cases more with
    | zero => rfl
    | succ more => exact if_pos hdue
  | succ fuel ih =>
    rw [Nat.add_right_comm]
    simp only [Harvesting.finish] at hdue ⊢
    split_ifs at hdue ⊢ with hnow hround
    · rfl
    · rfl
    · exact ih _ _ _ hdue

theorem start_timely (fleet : Fleet) (sensors : List Sensor) (metrics : List Metric) (timeout : Duration) :
    (start sensors metrics 0 timeout).Timely fleet sensors 0 where
  inTime := Nat.zero_le _
  early _ := Nat.zero_le _
  ready hdue := by
    cases sensors with
    | nil => exact absurd hdue (by simp [isDue, start, Cycle.isOver, Cycle.start])
    | cons s sensors => exact ⟨0, ⟨s, .fresh⟩, rfl, rfl⟩

theorem start_turns (bound : Nat) (sensors : List Sensor) (metrics : List Metric) (timeout : Duration) :
    (start sensors metrics 0 timeout).turns bound = sensors.length * (bound + 2) := by
  simp [turns, start, Function.comp_def, Player.Stage.turns]

/-- a cycle with time on its hands is due at its start only if it has no sensors -/
theorem start_isDue (sensors : List Sensor) (metrics : List Metric) {timeout : Duration} (hpos : 0 < timeout.millis)
    (hdue : (start sensors metrics 0 timeout).isDue 0 = true) : sensors = [] := by
  cases sensors with
  | nil => rfl
  | cons s sensors =>
    simp only [isDue, start, Cycle.isOver, Cycle.start, Nat.zero_add, Bool.or_eq_true, decide_eq_true_eq] at hdue
    rcases hdue with hover | hlate
    · exact absurd hover (by simp)
    · omega

/-- **The loop of a cycle ends.** With as many rounds as there are, or more, every harvest has begun and the cycle is due,
in time. -/
theorem start_finish (fleet : Fleet) (sensors : List Sensor) (metrics : List Metric) {timeout : Duration}
    (hpos : 0 < timeout.millis) :
    ∃ (h : Harvesting) (now : Nat) (after : Fleet),
      (∀ rounds ≥ (sensors.length + 1) * (fleet.longest + 2),
        Harvesting.finish rounds (start sensors metrics 0 timeout) 0 fleet = (h, now, after)) ∧
      h.deadline = timeout.millis ∧ h.Underway fleet sensors sensors.length now after ∧ h.Timely fleet sensors now ∧
      h.isDue now = true := by
  have hfuel : (start sensors metrics 0 timeout).turns fleet.longest < (sensors.length + 1) * (fleet.longest + 2) := by
    rw [start_turns, Nat.succ_mul]
    omega
  obtain ⟨hdeadline, hunderway, htimely, hdue⟩ :=
    (start_underway fleet sensors metrics timeout).finish _ (Nat.zero_le _)
      (fun hdue => by rw [start_isDue sensors metrics hpos hdue]; rfl) (start_timely fleet sensors metrics timeout) hfuel
      _ rfl
  refine ⟨_, _, _, fun rounds hrounds => ?_, hdeadline.trans (Nat.zero_add _), hunderway, htimely, hdue⟩
  obtain ⟨more, rfl⟩ := Nat.exists_eq_add_of_le hrounds
  exact finish_add _ more _ _ _ hdue

end Harvesting

end SensorNode
