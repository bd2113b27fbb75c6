/-
Chronicles. An engine goes on, and so do the players of its sensors and the instruments behind them; the chronicle of a
run keeps which orders have been placed, what has been seen of jobs, whose harvests have begun and what sensors have done.
What an act adds to the part of one job is its own turn (`act_turn`), or what a player of its cycle does (`act_play`), or
nothing (`act_agrees_of_ne`); and an act leaves the job itself alone but for its turns and its players
(`act_find?_of_ne`). The harvests of a chronicle are those that the instruments count (`run_harvests`).
-/
import SensorNode.Proofs.Reading.Numbering
import SensorNode.Proofs.Reading.Players

namespace SensorNode

namespace Engine

/-- what goes on in an engine and in the instruments behind its sensors -/
inductive Act
  /-- anything but what sensors do -/
  | op (op : Op) (unsensed : op.isSense = false)
  /-- the player in this seat of the job's cycle goes on -/
  | play (job seat : Nat)
  /-- the instruments come to be in another state -/
  | fleet (fleet : Fleet)

/-- a job goes on -/
def Act.turn (name : Nat) : Act := .op (.move (.advance name)) rfl

/-- time passes -/
def Act.isWait : Act → Bool
  | .op (.move (.wait _)) _ => true
  | _ => false

/-- no player can go on -/
def isIdle (e : Engine) : Bool :=
  e.jobs.values.all fun job =>
    match job.phase with
    | .harvesting h _ => h.isDue e.now || h.players.all fun p => !p.isReady e.now
    | _ => true

theorem playerIsReady_of_idle {e : Engine} (h : e.isIdle = true) (name seat : Nat) :
    e.playerIsReady name seat = false := by
  unfold playerIsReady
  split
  · rename_i order hv next hj
    have hjob := List.all_eq_true.1 h _ ((Keyed.mem_values_iff e.jobs _).2 ⟨name, hj⟩)
    dsimp only at hjob
    rcases Bool.or_eq_true_iff.1 hjob with hdue | hplayers
    · rw [hdue]
      rfl
    · cases hp : hv.players[seat]? with
      | none => exact Bool.and_false _
      | some p =>
        have hwaits := List.all_eq_true.1 hplayers p (List.mem_of_getElem? hp)
        have hwaits : p.isReady e.now = false := by simpa using hwaits
        simp [hwaits]
  · rfl

end Engine

open Engine (Act Entry)

/-- an engine and what is known of its run -/
structure Chronicle where
  engine : Engine
  /-- the orders that the engine has taken, oldest first -/
  placed : List Order
  log : List Entry
  /-- the sensors whose harvests have begun, each with the job of the cycle -/
  begun : List (Nat × Sensor)
  /-- what sensors have done, with the job of the cycle -/
  events : List (Nat × Nat × Cycle.Event)

namespace Chronicle

/-- nothing is known yet -/
def of (e : Engine) : Chronicle := ⟨e, [], [], [], []⟩

def act (t : Chronicle) : Act → Chronicle
  | .op op _ =>
    { t with
      engine := (t.engine.step op).1
      placed := t.placed ++ t.engine.placed op
      log := t.log ++ (t.engine.step op).2 }
  | .play job seat =>
    { t with
      engine := t.engine.play job seat
      begun := t.begun ++ (t.engine.begins job seat).map (job, ·)
      events := t.events ++ (t.engine.events job seat).map (job, ·) }
  | .fleet fleet => { t with engine := { t.engine with fleet } }

def run (t : Chronicle) (acts : List Act) : Chronicle := acts.foldl act t

variable {t : Chronicle} {n : Nat}

theorem run_append (t : Chronicle) (acts acts' : List Act) : t.run (acts ++ acts') = (t.run acts).run acts' :=
  List.foldl_append

theorem run_concat (t : Chronicle) (acts : List Act) (a : Act) : t.run (acts ++ [a]) = (t.run acts).act a :=
  run_append t acts [a]

/-- what has been seen of a job -/
def logOf (t : Chronicle) (n : Nat) : List Entry := t.log.filter (·.job = n)

/-- the sensors whose harvests have begun in the cycle of a job -/
def harvested (t : Chronicle) (n : Nat) : List Sensor := (t.begun.filter (·.1 = n)).map Prod.snd

/-- what sensors have done in the cycle of a job -/
def eventsOf (t : Chronicle) (n : Nat) : List (Nat × Cycle.Event) := (t.events.filter (·.1 = n)).map Prod.snd

/-- whenever time passes, there is no player that could go on -/
def isPrompt (t : Chronicle) : List Act → Bool
  | [] => true
  | a :: acts => (!a.isWait || t.engine.isIdle) && (t.act a).isPrompt acts

/-! ## The part of one job -/

/-- both know the same of the job -/
structure Agrees (t t' : Chronicle) (n : Nat) : Prop where
  log : t'.logOf n = t.logOf n
  harvested : t'.harvested n = t.harvested n
  events : t'.eventsOf n = t.eventsOf n

/-- nothing is known of the job -/
structure Unseen (t : Chronicle) (n : Nat) : Prop where
  log : t.logOf n = []
  harvested : t.harvested n = []
  events : t.eventsOf n = []

theorem Unseen.congr {t' : Chronicle} (hu : t.Unseen n) (h : t.Agrees t' n) : t'.Unseen n :=
  ⟨h.log.trans hu.log, h.harvested.trans hu.harvested, h.events.trans hu.events⟩

theorem filter_fst_map_mk {α : Type} (job n : Nat) (l : List α) :
    ((l.map (job, ·)).filter (·.1 = n)).map Prod.snd = if job = n then l else [] := by
  rw [List.filter_map, List.map_map]
  split_ifs with h <;> simp [h, Function.comp_def]

theorem act_turn (t : Chronicle) (n : Nat) :
    (t.act (.turn n)).logOf n = t.logOf n ++ t.engine.entries n ∧ (t.act (.turn n)).harvested n = t.harvested n ∧
      (t.act (.turn n)).eventsOf n = t.eventsOf n := by
  refine ⟨?_, rfl, rfl⟩
  have hall : (t.engine.entries n).filter (·.job = n) = t.engine.entries n := by
    refine List.filter_eq_self.2 fun x hx => ?_
    obtain ⟨job, -, -, hname, -⟩ := Engine.mem_entries hx
    exact decide_eq_true hname
  calc (t.act (.turn n)).logOf n
      = (t.log ++ t.engine.entries n).filter (·.job = n) := rfl
    _ = t.logOf n ++ (t.engine.entries n).filter (·.job = n) := List.filter_append ..
    _ = t.logOf n ++ t.engine.entries n := by rw [hall]

/-- a turn in which nothing is seen of the job -/
theorem act_turn_silent {e : Engine} (hadvance : t.engine.advance n = (e, [])) :
    (t.act (.turn n)).engine = e ∧ t.Agrees (t.act (.turn n)) n := by
  obtain ⟨hlog, hharvested, hevents⟩ := t.act_turn n
  have hentries : t.engine.entries n = [] := by
    unfold Engine.entries
    rw [hadvance]
    split <;> rfl
  exact ⟨congrArg Prod.fst hadvance, by rw [hlog, hentries, List.append_nil], hharvested, hevents⟩

theorem act_play (t : Chronicle) (n seat : Nat) :
    (t.act (.play n seat)).logOf n = t.logOf n ∧
      (t.act (.play n seat)).harvested n = t.harvested n ++ t.engine.begins n seat ∧
      (t.act (.play n seat)).eventsOf n = t.eventsOf n ++ t.engine.events n seat := by
  refine ⟨rfl, ?_, ?_⟩
  · simp only [act, harvested, List.filter_append, List.map_append, filter_fst_map_mk, if_true]
  · simp only [act, eventsOf, List.filter_append, List.map_append, filter_fst_map_mk, if_true]

/-- where no cycle is under way, a play is of no consequence -/
theorem act_play_of_not_harvesting
    (hnot : ∀ order h next, t.engine.jobs.find? n ≠ some ⟨order, .harvesting h next⟩) (seat : Nat) :
    (t.act (.play n seat)).engine = t.engine ∧ t.Agrees (t.act (.play n seat)) n := by
  obtain ⟨hengine, hbegins, hnothing⟩ := Engine.play_of_not_harvesting hnot seat
  obtain ⟨hlog, hharvested, hevents⟩ := t.act_play n seat
  exact ⟨hengine, hlog, by rw [hharvested, hbegins, List.append_nil], by rw [hevents, hnothing, List.append_nil]⟩

/-- an act that is neither a turn of the job nor a play in its cycle adds nothing to what is known of the job -/
theorem act_agrees_of_ne {a : Act} (hturn : a ≠ .turn n) (hplay : ∀ seat, a ≠ .play n seat) :
    t.Agrees (t.act a) n := by
  cases a with
  | op op hop =>
    refine ⟨?_, rfl, rfl⟩
    have hne : op ≠ .move (.advance n) := by
      rintro rfl
      exact hturn rfl
    calc (t.act (.op op hop)).logOf n
        = (t.log ++ (t.engine.step op).2).filter (·.job = n) := rfl
      _ = t.logOf n ++ (t.engine.step op).2.filter (·.job = n) := List.filter_append ..
      _ = t.logOf n := by rw [Engine.filter_step_log_of_ne t.engine op n hne, List.append_nil]
  | play job seat =>
    have hjob : job ≠ n := by
      rintro rfl
      exact hplay seat rfl
    refine ⟨rfl, ?_, ?_⟩
    · simp only [act, harvested, List.filter_append, List.map_append, filter_fst_map_mk, if_neg hjob, List.append_nil]
    · simp only [act, eventsOf, List.filter_append, List.map_append, filter_fst_map_mk, if_neg hjob, List.append_nil]
  | fleet fleet => exact ⟨rfl, rfl, rfl⟩

/-- it leaves the job alone, too -/
theorem act_find?_of_ne {a : Act} (hlt : n < t.engine.nextJob) (hturn : a ≠ .turn n) (hplay : ∀ seat, a ≠ .play n seat) :
    (t.act a).engine.jobs.find? n = t.engine.jobs.find? n := by
  cases a with
  | op op hop =>
    refine Engine.step_find?_of_unsensed hop n hlt ?_
    rintro rfl
    exact hturn rfl
  | play job seat =>
    refine Engine.play_find?_of_ne ?_ seat
    rintro rfl
    exact hplay seat rfl
  | fleet fleet => rfl

/-- where there is no job, there is nothing to be known -/
theorem act_unseen (hnone : t.engine.jobs.find? n = none) (hu : t.Unseen n) (a : Act) : (t.act a).Unseen n := by
  by_cases hturn : a = .turn n
  · subst hturn
    exact hu.congr (act_turn_silent (Engine.advance_of_none t.engine n hnone)).2
  by_cases hplay : ∀ seat, a ≠ .play n seat
  · exact hu.congr (act_agrees_of_ne hturn hplay)
  · obtain ⟨seat, rfl⟩ : ∃ seat, a = .play n seat := by simpa using hplay
    exact hu.congr (act_play_of_not_harvesting (fun order h next => by simp [hnone]) seat).2

/-! ## The engine -/

/-- what an act does to the engine is a case of what goes on in engines -/
theorem act_engine (hr : t.engine.Regular) (a : Act) :
    ∃ op, (t.act a).engine = (t.engine.step op).1 ∧ (t.act a).placed = t.placed ++ t.engine.placed op ∧
      (t.act a).log = t.log ++ (t.engine.step op).2 := by
  cases a with
  | op op hop => exact ⟨op, rfl, rfl, rfl⟩
  | play job seat =>
    obtain ⟨events, players, fleet, hsense⟩ := Engine.play_eq_sense t.engine job seat
    exact ⟨.move (.sense job events players fleet), hsense, (List.append_nil _).symm, (List.append_nil _).symm⟩
  | fleet fleet =>
    -- there is no job under the next name whose sensors could do anything
    have hsense : t.engine.sense t.engine.nextJob [] [] fleet = { t.engine with fleet } := by
      simp only [Engine.sense, hr.unused]
    exact ⟨.move (.sense t.engine.nextJob [] [] fleet), hsense.symm, (List.append_nil _).symm, (List.append_nil _).symm⟩

theorem act_settings (t : Chronicle) (a : Act) :
    (t.act a).engine.timeout = t.engine.timeout ∧ (t.act a).engine.policy = t.engine.policy ∧
      ((t.act a).engine.now = t.engine.now ∨ a.isWait = true) := by
  cases a with
  | op op hop =>
    obtain ⟨htimeout, hpolicy, hnow, -⟩ := Engine.step_settings t.engine op
    refine ⟨htimeout, hpolicy, hnow.imp_right ?_⟩
    rintro ⟨span, rfl⟩
    rfl
  | play job seat =>
    simp only [act, Engine.play]
    split <;> exact ⟨rfl, rfl, Or.inl rfl⟩
  | fleet fleet => exact ⟨rfl, rfl, Or.inl rfl⟩

/-- Instruments that are left to the engine have been harvested as often as the chronicle has harvests of them begin. -/
theorem run_harvests (t : Chronicle) {acts : List Act} (hleft : ∀ fleet, .fleet fleet ∉ acts) :
    ∃ begun, (t.run acts).begun = t.begun ++ begun ∧ ∀ key : Nat,
      ((t.run acts).engine.fleet[key]?).map Instrument.harvests =
        (t.engine.fleet[key]?).map fun i => i.harvests + begun.countP (·.2.instrument = key) := by
  induction acts generalizing t with
  | nil => exact ⟨[], (List.append_nil _).symm, fun key => rfl⟩
  | cons a acts ih =>
    have hrest : ∀ fleet, .fleet fleet ∉ acts := fun fleet hm => hleft fleet (List.mem_cons_of_mem a hm)
    obtain ⟨later, hlater, hcounts⟩ := ih (t.act a) hrest
    cases a with
    | op op hop =>
      have hfleet : (t.act (.op op hop)).engine.fleet = t.engine.fleet :=
        (Engine.step_settings t.engine op).2.2.2 hop
      rw [hfleet] at hcounts
      exact ⟨later, hlater, hcounts⟩
    | play job seat =>
      refine ⟨(t.engine.begins job seat).map (job, ·) ++ later, ?_, fun key => ?_⟩
      · rw [← List.append_assoc]
        exact hlater
      · have hone := Engine.play_harvests t.engine job seat key
        have hcount : ((t.engine.begins job seat).map (job, ·) ++ later).countP (·.2.instrument = key) =
            (t.engine.begins job seat).countP (·.instrument = key) + later.countP (·.2.instrument = key) := by
          rw [List.countP_append, List.countP_map]
          rfl
        calc ((t.run (.play job seat :: acts)).engine.fleet[key]?).map Instrument.harvests
            = ((t.engine.play job seat).fleet[key]?).map fun i =>
                i.harvests + later.countP (·.2.instrument = key) := hcounts key
          _ = (((t.engine.play job seat).fleet[key]?).map Instrument.harvests).map
                (· + later.countP (·.2.instrument = key)) := by rw [Option.map_map]; rfl
          _ = (t.engine.fleet[key]?).map fun i => i.harvests + (t.engine.begins job seat).countP (·.instrument = key) +
                later.countP (·.2.instrument = key) := by rw [hone, Option.map_map]; rfl
          _ = _ := by simp only [hcount, Nat.add_assoc]
    | fleet fleet => exact absurd List.mem_cons_self (hleft fleet)

/-- what is new in the log is what a job does in its turn -/
theorem mem_act_log {a : Act} {x : Entry} (hx : x ∈ (t.act a).log) :
    x ∈ t.log ∨ a = .turn x.job ∧ x ∈ t.engine.entries x.job := by
  cases a with
  | op op hop =>
    rcases List.mem_append.1 hx with hx | hx
    · exact Or.inl hx
    · obtain ⟨rfl, hentry⟩ := Engine.mem_step_log hx
      exact Or.inr ⟨rfl, hentry⟩
  | play job seat => exact Or.inl hx
  | fleet fleet => exact Or.inl hx

/-- what is seen has been done by a job in a turn -/
theorem mem_run_log (e : Engine) {acts : List Act} {x : Entry} (hx : x ∈ ((of e).run acts).log) :
    ∃ pre post, acts = pre ++ .turn x.job :: post ∧ x ∈ ((of e).run pre).engine.entries x.job := by
  induction acts using List.reverseRecOn with
  | nil => cases hx
  | append_singleton acts a ih =>
    rw [run_concat] at hx
    rcases mem_act_log hx with hx | ⟨rfl, hentry⟩
    · obtain ⟨pre, post, rfl, hentry⟩ := ih hx
      exact ⟨pre, post ++ [a], by simp, hentry⟩
    · exact ⟨acts, [], rfl, hentry⟩

end Chronicle

end SensorNode
