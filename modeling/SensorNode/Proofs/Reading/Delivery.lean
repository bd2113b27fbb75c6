/-
Orders that are carried out once, from their placing to the delivery of their readings. Such an order waits in the queue
and then as a job that has not run yet; its job starts one cycle, the sensors of the cycle harvest, and when the cycle is
due its readings are delivered, and that is all that is ever seen of it (`Course`). No act of a run leaves this course
(`Sound.act`), and where nothing waits and nothing is under way, every order is at its end (`once_delivered`).
-/
import SensorNode.Proofs.Reading.Chronicle

namespace SensorNode

open Engine (Act Entry)

/-- the sensors over which a cycle starts -/
def Effect.sensors : Effect → List Sensor
  | .started _ sensors => sensors
  | .delivered _ => []

namespace Engine

variable {e : Engine} {n : Nat}

/-- no order waits, no cycle or delivery is under way, and no job has its only cycle to come -/
def isSettled (e : Engine) : Bool :=
  e.queue.isEmpty && e.jobs.values.all fun job =>
    !Job.isBusy job && (job.order.cadence ≠ .once || !job.phase.isFresh)

/-- of orders that are to be carried out once no job is left that has not come to its end -/
theorem settled_once (h : e.isSettled = true) :
    e.queue = [] ∧ ∀ order phase, e.jobs.find? n = some ⟨order, phase⟩ → order.cadence = .once →
      Job.isBusy ⟨order, phase⟩ = false ∧ phase.isFresh = false := by
  simp only [isSettled, Bool.and_eq_true, List.isEmpty_iff] at h
  refine ⟨h.1, fun order phase hj hc => ?_⟩
  have hjob := List.all_eq_true.1 h.2 _ ((Keyed.mem_values_iff e.jobs _).2 ⟨n, hj⟩)
  simpa [hc] using hjob

/-! ## The turns of a job that runs once -/

theorem advance_fresh_once {order : Order} (hc : order.cadence = .once)
    (hj : e.jobs.find? n = some ⟨order, .fresh⟩) : e.advance n = e.startCycle n order 0 := by
  unfold advance
  simp only [hj, hc]

theorem advance_delivering {order : Order} {done next : Nat}
    (hj : e.jobs.find? n = some ⟨order, .delivering done next⟩) :
    e.advance n = if done ≤ e.now then (e.afterDelivery n order next, []) else (e, []) := by
  unfold advance
  simp only [hj]

/-- when the readings are delivered, the job is over, or it waits for its recipient -/
theorem completeCycle_once {order : Order} {phase : Job.Phase} (hc : order.cadence = .once)
    (hj : e.jobs.find? n = some ⟨order, phase⟩) (h : Harvesting) (next : Nat) :
    (e.completeCycle n order h next).1.jobs.find? n = none ∨
      ∃ done, (e.completeCycle n order h next).1.jobs.find? n = some ⟨order, .delivering done next⟩ := by
  simp only [completeCycle, afterDelivery, hc]
  split_ifs
  · left
    rw [endJob_find?, if_pos rfl]
  · right
    rw [setPhase_find?, if_pos rfl]
    exact ⟨_, by rw [hj]; rfl⟩

end Engine

namespace Chronicle

variable {timeout : Duration} {policy : Reduction} {timely : Prop} {n : Nat} {order : Order} {time finish : Nat}
  {sensors : List Sensor} {h : Harvesting} {t : Chronicle}

/-! ## The cycle of a job -/

/-- The cycle of the job, which has started at this time over these sensors. If it is timely, time has not passed before
all of them have begun. -/
structure Tended (timeout : Duration) (timely : Prop) (n : Nat) (order : Order) (time : Nat) (sensors : List Sensor)
    (h : Harvesting) (t : Chronicle) : Prop where
  cycle : h.cycle = (Cycle.start (sensors.map Sensor.id) order.metrics).run (t.eventsOf n)
  attended : h.Attended sensors (t.harvested n)
  deadline : h.deadline = time + timeout.millis
  punctual : timely → h.pending ≠ [] → t.engine.now = time

/-- What is seen of the job is the start of one cycle over these sensors and the delivery of its readings. None of them
has been harvested more than once, and each of them once if the deadline had not come or if the cycle was timely. -/
structure CarriedOut (timeout : Duration) (policy : Reduction) (timely : Prop) (n : Nat) (order : Order) (time : Nat)
    (sensors : List Sensor) (finish : Nat) (t : Chronicle) : Prop where
  log : t.logOf n = [⟨time, n, order, .started order sensors⟩, ⟨finish, n, order, .delivered ⟨finish, order.recipient,
    ((Cycle.start (sensors.map Sensor.id) order.metrics).run (t.eventsOf n)).readings policy⟩⟩]
  harvested : (t.harvested n).Subperm sensors
  early : finish < time + timeout.millis → (t.harvested n).Perm sensors
  timely : timely → (t.harvested n).Perm sensors

/-- a cycle that starts now -/
theorem tended_start (htimeout : t.engine.timeout = timeout) (hu : t.Unseen n) (sensors : List Sensor) :
    Tended timeout timely n order t.engine.now sensors
      (.start sensors order.metrics t.engine.now t.engine.timeout) t where
  cycle := by
    rw [hu.events]
    rfl
  attended := by
    rw [hu.harvested]
    exact Harvesting.start_attended ..
  deadline := by
    rw [← htimeout]
    rfl
  punctual _ _ := rfl

/-- an act that concerns neither the sensors of the cycle nor the clock -/
theorem Tended.congr (ht : Tended timeout timely n order time sensors h t) {t' : Chronicle}
    (hharvested : t'.harvested n = t.harvested n) (hevents : t'.eventsOf n = t.eventsOf n)
    (hnow : t'.engine.now = t.engine.now) : Tended timeout timely n order time sensors h t' :=
  ⟨by rw [hevents]; exact ht.cycle, by rw [hharvested]; exact ht.attended, ht.deadline,
    fun hyes hpending => hnow.trans (ht.punctual hyes hpending)⟩

theorem CarriedOut.congr (hdone : CarriedOut timeout policy timely n order time sensors finish t) {t' : Chronicle}
    (h : t.Agrees t' n) : CarriedOut timeout policy timely n order time sensors finish t' := by
  refine ⟨?_, ?_, ?_, ?_⟩
  · rw [h.log, h.events]
    exact hdone.log
  · rw [h.harvested]
    exact hdone.harvested
  · rw [h.harvested]
    exact hdone.early
  · rw [h.harvested]
    exact hdone.timely

/-- A cycle that is due has harvested each of its sensors unless it is due for its deadline. -/
theorem Tended.pending_of_due (ht : Tended timeout timely n order time sensors h t)
    (hdue : h.isDue t.engine.now = true) : h.pending = [] ∨ time + timeout.millis ≤ t.engine.now := by
  simp only [Harvesting.isDue, Bool.or_eq_true, decide_eq_true_eq] at hdue
  rcases hdue with hover | hdeadline
  · exact Or.inl (ht.attended.over hover)
  · exact Or.inr (ht.deadline ▸ hdeadline)

theorem Tended.carriedOut (ht : Tended timeout timely n order time sensors h t)
    (hdue : h.isDue t.engine.now = true) (htimely : timely → 0 < timeout.millis) {t' : Chronicle}
    (hharvested : t'.harvested n = t.harvested n) (hevents : t'.eventsOf n = t.eventsOf n)
    (hlog : t'.logOf n = [⟨time, n, order, .started order sensors⟩, ⟨t.engine.now, n, order,
      .delivered ⟨t.engine.now, order.recipient, h.cycle.readings policy⟩⟩]) :
    CarriedOut timeout policy timely n order time sensors t.engine.now t' where
  log := by rw [hlog, hevents, ht.cycle]
  harvested := by
    rw [hharvested]
    exact ht.attended.subperm
  early hearly := by
    rw [hharvested]
    rcases ht.pending_of_due hdue with hnone | hlate
    · exact ht.attended.perm hnone
    · omega
  timely hyes := by
    rw [hharvested]
    by_cases hnone : h.pending = []
    · exact ht.attended.perm hnone
    · -- no time has passed since the start, and the deadline has come
      have hnow := ht.punctual hyes hnone
      have hlate := (ht.pending_of_due hdue).resolve_left hnone
      have hpositive := htimely hyes
      omega

/-! ## The course of an order -/

/-- how far an order is that is to be carried out once -/
inductive Course (timeout : Duration) (policy : Reduction) (timely : Prop) (n : Nat) (order : Order) (t : Chronicle) :
    Prop
  | awaited (unseen : t.Unseen n) (job : t.engine.nextJob ≤ n ∨ t.engine.jobs.find? n = some ⟨order, .fresh⟩)
  | underWay (time : Nat) (sensors : List Sensor) (h : Harvesting) (next : Nat)
    (job : t.engine.jobs.find? n = some ⟨order, .harvesting h next⟩)
    (log : t.logOf n = [⟨time, n, order, .started order sensors⟩])
    (tended : Tended timeout timely n order time sensors h t)
  | atEnd (time : Nat) (sensors : List Sensor) (finish : Nat) (used : n < t.engine.nextJob)
    (job : t.engine.jobs.find? n = none ∨ ∃ done next, t.engine.jobs.find? n = some ⟨order, .delivering done next⟩)
    (carriedOut : CarriedOut timeout policy timely n order time sensors finish t)

theorem act_turn_nextJob (t : Chronicle) (n : Nat) : (t.act (.turn n)).engine.nextJob = t.engine.nextJob :=
  Engine.advance_nextJob t.engine n

/-- a cycle that ends in the turn of its job -/
theorem Tended.atEnd (ht : Tended timeout timely n order time sensors h t) (hdue : h.isDue t.engine.now = true)
    (htimely : timely → 0 < timeout.millis) (hpolicy : t.engine.policy = policy) (hr : t.engine.Regular)
    (hc : order.cadence = .once) {phase : Job.Phase} (hj : t.engine.jobs.find? n = some ⟨order, phase⟩) {next : Nat}
    (before : List Effect) (hadvance : t.engine.advance n = ((t.engine.completeCycle n order h next).1,
      before ++ (t.engine.completeCycle n order h next).2))
    (hlog : t.logOf n ++ before.map (fun effect => ⟨t.engine.now, n, order, effect⟩) =
      [⟨time, n, order, .started order sensors⟩]) :
    Course timeout policy timely n order (t.act (.turn n)) := by
  obtain ⟨hturn, hharvested, hevents⟩ := t.act_turn n
  have hjob := Engine.completeCycle_once hc hj h next
  have hengine : (t.act (.turn n)).engine = (t.engine.completeCycle n order h next).1 :=
    congrArg Prod.fst hadvance
  have hseen : (t.act (.turn n)).logOf n = [⟨time, n, order, .started order sensors⟩, ⟨t.engine.now, n, order,
      .delivered ⟨t.engine.now, order.recipient, h.cycle.readings policy⟩⟩] := by
    rw [hturn, Engine.entries_of_find? hj, hadvance, List.map_append, ← List.append_assoc, hlog,
      Engine.completeCycle_effects, hpolicy]
    rfl
  refine .atEnd time sensors t.engine.now ?_ ?_ (ht.carriedOut hdue htimely hharvested hevents hseen)
  · rw [act_turn_nextJob]
    exact hr.named n _ hj
  · rw [hengine]
    exact hjob.imp_right fun ⟨done, hdone⟩ => ⟨done, next, hdone⟩

theorem Course.turn (hcourse : Course timeout policy timely n order t) (htimely : timely → 0 < timeout.millis)
    (htimeout : t.engine.timeout = timeout) (hpolicy : t.engine.policy = policy) (hr : t.engine.Regular)
    (hc : order.cadence = .once) : Course timeout policy timely n order (t.act (.turn n)) := by
  obtain ⟨hturn, hharvested, hevents⟩ := t.act_turn n
  have hnow : (t.act (.turn n)).engine.now = t.engine.now :=
    (t.act_settings (.turn n)).2.2.resolve_right Bool.false_ne_true
  cases hcourse with
  | awaited unseen job =>
    rcases job with hle | hj
    · exact .awaited (act_unseen (hr.unnamed hle) unseen _) (Or.inl (by rw [act_turn_nextJob]; exact hle))
    · -- the cycle starts, and it may be due at once
      have ht : Tended timeout timely n order t.engine.now (t.engine.eligible order.metrics)
          (.start (t.engine.eligible order.metrics) order.metrics t.engine.now t.engine.timeout) t :=
        tended_start htimeout unseen _
      have hadvance := Engine.advance_fresh_once hc hj
      rw [Engine.startCycle] at hadvance
      by_cases hdue : (Harvesting.start (t.engine.eligible order.metrics) order.metrics t.engine.now
          t.engine.timeout).isDue t.engine.now = true
      · rw [if_pos hdue] at hadvance
        exact ht.atEnd hdue htimely hpolicy hr hc hj [.started order (t.engine.eligible order.metrics)] hadvance
          (by rw [unseen.log]; rfl)
      · rw [if_neg hdue] at hadvance
        refine .underWay _ _ _ 0 ?_ ?_ (ht.congr hharvested hevents hnow)
        · have hengine : (t.act (.turn n)).engine = (t.engine.advance n).1 := rfl
          rw [hengine, hadvance, Engine.setPhase_find?, if_pos rfl, hj]
          rfl
        · rw [hturn, unseen.log, Engine.entries_of_find? hj, hadvance]
          rfl
  | underWay time sensors h next job log tended =>
    have hadvance := Engine.advance_harvesting job
    by_cases hdue : h.isDue t.engine.now = true
    · rw [if_pos hdue] at hadvance
      exact tended.atEnd hdue htimely hpolicy hr hc job [] hadvance (by simpa using log)
    · rw [if_neg hdue] at hadvance
      obtain ⟨hengine, hagrees⟩ := act_turn_silent hadvance
      exact .underWay time sensors h next (hengine ▸ job) (hagrees.log.trans log) (tended.congr hharvested hevents hnow)
  | atEnd time sensors finish used job carriedOut =>
    have stays : ∀ e, t.engine.advance n = (e, []) →
        (e.jobs.find? n = none ∨ ∃ done next, e.jobs.find? n = some ⟨order, .delivering done next⟩) →
        Course timeout policy timely n order (t.act (.turn n)) := by
      intro e hadvance hjob
      obtain ⟨hengine, hagrees⟩ := act_turn_silent hadvance
      exact .atEnd time sensors finish (by rw [act_turn_nextJob]; exact used) (hengine ▸ hjob)
        (carriedOut.congr hagrees)
    rcases job with hnone | ⟨done, next, hj⟩
    · exact stays _ (Engine.advance_of_none t.engine n hnone) (Or.inl hnone)
    · have hadvance := Engine.advance_delivering hj
      split_ifs at hadvance
      · refine stays _ hadvance (Or.inl ?_)
        rw [Engine.afterDelivery, hc, Engine.endJob_find?, if_pos rfl]
      · exact stays _ hadvance (Or.inr ⟨done, next, hj⟩)

/-- what a player of the cycle does -/
theorem Tended.play (ht : Tended timeout timely n order time sensors h t) {next : Nat}
    (hj : t.engine.jobs.find? n = some ⟨order, .harvesting h next⟩) (seat : Nat) :
    Tended timeout timely n order time sensors (h.play t.engine.now seat t.engine.fleet).1 (t.act (.play n seat)) := by
  obtain ⟨-, hharvested, hevents⟩ := t.act_play n seat
  have hbegins : t.engine.begins n seat = h.begins seat := by
    unfold Engine.begins
    rw [hj]
  have hdoes : t.engine.events n seat = h.events t.engine.now seat t.engine.fleet := by
    unfold Engine.events
    rw [hj]
  refine ⟨?_, ?_, ?_, fun hyes hpending => ?_⟩
  · rw [h.play_cycle, hevents, hdoes, ht.cycle, Cycle.run, Cycle.run, Cycle.run, List.foldl_append]
  · rw [hharvested, hbegins]
    exact ht.attended.play ..
  · rw [h.play_deadline]
    exact ht.deadline
  · have hnow : (t.act (.play n seat)).engine.now = t.engine.now :=
      (t.act_settings (.play n seat)).2.2.resolve_right Bool.false_ne_true
    refine hnow.trans (ht.punctual hyes fun hnone => hpending ?_)
    have hperm := h.play_pending t.engine.now seat t.engine.fleet
    rw [hnone] at hperm
    exact (List.append_eq_nil_iff.1 hperm.eq_nil).2

theorem Course.play (hcourse : Course timeout policy timely n order t) (hr : t.engine.Regular) (seat : Nat) :
    Course timeout policy timely n order (t.act (.play n seat)) := by
  cases hcourse with
  | awaited unseen job =>
    have hnot : ∀ order' h next, t.engine.jobs.find? n ≠ some ⟨order', .harvesting h next⟩ := by
      rcases job with hle | hj
      · simp [hr.unnamed hle]
      · simp [hj]
    obtain ⟨hengine, hagrees⟩ := act_play_of_not_harvesting hnot seat
    exact .awaited (unseen.congr hagrees) (hengine ▸ job)
  | underWay time sensors h next job log tended =>
    refine .underWay time sensors _ next (Engine.play_find?_of_harvesting job seat) ?_ (tended.play job seat)
    exact (t.act_play n seat).1.trans log
  | atEnd time sensors finish used job carriedOut =>
    have hnot : ∀ order' h next, t.engine.jobs.find? n ≠ some ⟨order', .harvesting h next⟩ := by
      rcases job with hnone | ⟨done, next, hj⟩
      · simp [hnone]
      · simp [hj]
    obtain ⟨hengine, hagrees⟩ := act_play_of_not_harvesting hnot seat
    exact .atEnd time sensors finish (hengine ▸ used) (hengine ▸ job) (carriedOut.congr hagrees)

/-- a sensor that is pending in a timely cycle can go on -/
theorem Tended.not_idle (ht : Tended timeout timely n order time sensors h t) {next : Nat}
    (hj : t.engine.jobs.find? n = some ⟨order, .harvesting h next⟩) (hyes : timely) (hpositive : 0 < timeout.millis)
    (hpending : h.pending ≠ []) : ¬t.engine.isIdle = true := by
  intro hidle
  obtain ⟨seat, p, hp, hready⟩ := Harvesting.exists_ready_of_pending hpending t.engine.now
  have hblocked := Engine.playerIsReady_of_idle hidle n seat
  have hdue : h.isDue t.engine.now = true := by
    simpa [Engine.playerIsReady, hj, hp, hready] using hblocked
  have hnow := ht.punctual hyes hpending
  have hlate := (ht.pending_of_due hdue).resolve_left hpending
  omega

/-- what goes on besides -/
theorem Course.other (hcourse : Course timeout policy timely n order t) (htimely : timely → 0 < timeout.millis)
    (hr : t.engine.Regular) (hn : Engine.Numbered t.placed t.engine) (hplaced : t.placed[n]? = some order)
    (hc : order.cadence = .once) {a : Act} (hprompt : timely → a.isWait = true → t.engine.isIdle = true)
    (hturn : a ≠ .turn n) (hplay : ∀ seat, a ≠ .play n seat) :
    Course timeout policy timely n order (t.act a) := by
  have hagrees : t.Agrees (t.act a) n := act_agrees_of_ne hturn hplay
  obtain ⟨op, hengine, -, -⟩ := act_engine hr a
  cases hcourse with
  | awaited unseen job =>
    refine .awaited (unseen.congr hagrees) ?_
    rcases job with hle | hj
    · rw [hengine]
      exact hn.step_unborn op hplaced hc hle
    · rw [act_find?_of_ne (hr.named n _ hj) hturn hplay]
      exact Or.inr hj
  | underWay time sensors h next job log tended =>
    have hsame := act_find?_of_ne (hr.named n _ job) hturn hplay
    refine .underWay time sensors h next (hsame.trans job) (hagrees.log.trans log) ?_
    rcases (t.act_settings a).2.2 with hnow | hwait
    · exact tended.congr hagrees.harvested hagrees.events hnow
    · -- time passes only once all of them have begun
      refine ⟨hagrees.events ▸ tended.cycle, hagrees.harvested ▸ tended.attended, tended.deadline, ?_⟩
      intro hyes hpending
      exact absurd (hprompt hyes hwait) (tended.not_idle job hyes (htimely hyes) hpending)
  | atEnd time sensors finish used job carriedOut =>
    have hused : n < (t.act a).engine.nextJob := by
      rw [hengine]
      exact used.trans_le (Engine.step_nextJob_le t.engine op)
    refine .atEnd time sensors finish hused ?_ (carriedOut.congr hagrees)
    rw [act_find?_of_ne used hturn hplay]
    exact job

/-! ## Runs -/

/-- What every run keeps to: what is seen is seen of an order that has been placed, nothing is known of jobs to come, and
every order that is to be carried out once is on its course. -/
structure Sound (timeout : Duration) (policy : Reduction) (timely : Prop) (t : Chronicle) : Prop where
  regular : t.engine.Regular
  numbered : Engine.Numbered t.placed t.engine
  settings : t.engine.timeout = timeout ∧ t.engine.policy = policy
  attributed : ∀ x ∈ t.log, t.placed[x.job]? = some x.order
  unseen : ∀ n, t.engine.nextJob ≤ n → t.Unseen n
  course : ∀ n order, t.placed[n]? = some order → order.cadence = .once → Course timeout policy timely n order t

theorem of_sound (timeout : Duration) (policy : Reduction) (timely : Prop) :
    Sound timeout policy timely (.of (.new timeout policy)) where
  regular := Engine.new_regular timeout policy
  numbered := Engine.new_numbered timeout policy
  settings := ⟨rfl, rfl⟩
  attributed x hx := by cases hx
  unseen n _ := ⟨rfl, rfl, rfl⟩
  course n order hplaced := by simp [of] at hplaced

/-- an order that has been placed stays on its course -/
theorem Sound.course_act (hs : Sound timeout policy timely t) (htimely : timely → 0 < timeout.millis)
    (hplaced : t.placed[n]? = some order) (hc : order.cadence = .once) {a : Act}
    (hprompt : timely → a.isWait = true → t.engine.isIdle = true) :
    Course timeout policy timely n order (t.act a) := by
  have hcourse := hs.course n order hplaced hc
  by_cases hturn : a = .turn n
  · subst hturn
    exact hcourse.turn htimely hs.settings.1 hs.settings.2 hs.regular hc
  by_cases hplay : ∀ seat, a ≠ .play n seat
  · exact hcourse.other htimely hs.regular hs.numbered hplaced hc hprompt hturn hplay
  · obtain ⟨seat, rfl⟩ : ∃ seat, a = .play n seat := by simpa using hplay
    exact hcourse.play hs.regular seat

theorem Sound.act (hs : Sound timeout policy timely t) (htimely : timely → 0 < timeout.millis) {a : Act}
    (hprompt : timely → a.isWait = true → t.engine.isIdle = true) : Sound timeout policy timely (t.act a) := by
  obtain ⟨op, hengine, hplaced, -⟩ := act_engine hs.regular a
  obtain ⟨htimeout, hpolicy, -⟩ := t.act_settings a
  have hnext : t.engine.nextJob ≤ (t.act a).engine.nextJob := by
    rw [hengine]
    exact Engine.step_nextJob_le t.engine op
  have hunseen : ∀ n, t.engine.nextJob ≤ n → (t.act a).Unseen n :=
    fun n hle => act_unseen (hs.regular.unnamed hle) (hs.unseen n hle) a
  have hsettings := And.intro (htimeout.trans hs.settings.1) (hpolicy.trans hs.settings.2)
  refine ⟨?regular, ?numbered, hsettings, ?attributed, fun n hle => hunseen n (hnext.trans hle), ?course⟩
  case regular =>
    rw [hengine]
    exact Engine.step_regular hs.regular op
  case numbered =>
    rw [hengine, hplaced]
    exact Engine.step_numbered hs.numbered op
  case attributed =>
    intro x hx
    rw [hplaced]
    have hold : t.placed[x.job]? = some x.order := by
      rcases mem_act_log hx with hx | ⟨-, hentry⟩
      · exact hs.attributed x hx
      · obtain ⟨job, hj, -, -, horder, -⟩ := Engine.mem_entries hentry
        rw [horder]
        exact hs.numbered.jobs x.job job hj
    rw [List.getElem?_append_left (List.getElem?_eq_some_iff.1 hold).1]
    exact hold
  case course =>
    intro n order hn hc
    rw [hplaced] at hn
    by_cases hlt : n < t.placed.length
    · rw [List.getElem?_append_left hlt] at hn
      exact hs.course_act htimely hn hc hprompt
    · -- the order has just been placed, so that no name has been used up
      have hop : op ≠ .move .dispatch := by
        rintro rfl
        rw [Engine.placed, List.append_nil] at hn
        exact hlt (List.getElem?_eq_some_iff.1 hn).1
      have hle : t.engine.nextJob ≤ n := hs.numbered.named.trans (not_lt.1 hlt)
      refine .awaited (hunseen n hle) (Or.inl ?_)
      rw [hengine, Engine.step_nextJob t.engine hop]
      exact hle

theorem Sound.run (hs : Sound timeout policy timely t) (htimely : timely → 0 < timeout.millis) {acts : List Act}
    (hprompt : timely → t.isPrompt acts = true) : Sound timeout policy timely (t.run acts) := by
  induction acts generalizing t with
  | nil => exact hs
  | cons a acts ih =>
    have hsplit : timely → (a.isWait = true → t.engine.isIdle = true) ∧ (t.act a).isPrompt acts = true := by
      intro hyes
      have hprompt := hprompt hyes
      simp only [isPrompt, Bool.and_eq_true, Bool.or_eq_true, Bool.not_eq_true'] at hprompt
      refine ⟨fun hwait => hprompt.1.resolve_left ?_, hprompt.2⟩
      simp [hwait]
    exact ih (hs.act htimely fun hyes => (hsplit hyes).1) fun hyes => (hsplit hyes).2

/-! ## Deliveries -/

/-- there are never two deliveries on the course of an order -/
theorem Course.deliveries_le_one (h : Course timeout policy timely n order t) :
    (t.logOf n).countP (fun x => !x.effect.isStart) ≤ 1 := by
  cases h with
  | awaited unseen => simp [unseen.log]
  | underWay time sensors h next job log => simp [log, Effect.isStart]
  | atEnd time sensors finish used job carriedOut => simp [carriedOut.log, Effect.isStart]

/-- the start of a cycle is seen in a turn of the job, and the cycle is over the sensors that are eligible then -/
theorem turn_of_started (e : Engine) {acts : List Act}
    (hx : ⟨time, n, order, .started order sensors⟩ ∈ ((of e).run acts).log) :
    ∃ pre post, acts = pre ++ .turn n :: post ∧ time = ((of e).run pre).engine.now ∧
      sensors = ((of e).run pre).engine.eligible order.metrics := by
  obtain ⟨pre, post, hacts, hentry⟩ := mem_run_log e hx
  obtain ⟨job, hj, htime, -, horder, heffect⟩ := Engine.mem_entries hentry
  obtain ⟨hstarted, -⟩ := Engine.started_of_mem_advance hj heffect rfl
  obtain rfl : order = job.order := horder
  exact ⟨pre, post, hacts, htime, (Effect.started.inj hstarted).2⟩

/-- **Single readings.** In every run, whatever is seen is seen of an order that has been placed, and of an order that is
to be carried out once no two deliveries are seen. The harvests of the run are those that the instruments count. When the drive loop runs, nothing waits and nothing is under way, such
an order has been carried out: in one of its turns its job has started a cycle over the sensors that were eligible then,
and the readings of that cycle have been delivered to its recipient, once. No sensor of it was harvested twice, and each
was harvested if the readings were delivered before the deadline of the cycle, or if the deadline is not at the start and
time passed only when no sensor could go on. -/
theorem once_delivered (timeout : Duration) (policy : Reduction) (acts : List Act) :
    let start := of (.new timeout policy)
    let t := start.run acts
    (∀ x ∈ t.log, t.placed[x.job]? = some x.order) ∧
      (∀ pre fleet post, acts = pre ++ .fleet fleet :: post → (∀ other, .fleet other ∉ post) →
        ∃ begun, t.begun = (start.run pre).begun ++ begun ∧ ∀ key : Nat,
          (t.engine.fleet[key]?).map Instrument.harvests =
            (fleet[key]?).map fun i => i.harvests + begun.countP (·.2.instrument = key)) ∧
      ∀ n order, t.placed[n]? = some order → order.cadence = .once →
        (t.logOf n).countP (fun x => !x.effect.isStart) ≤ 1 ∧
        (t.engine.loop = .running → t.engine.isSettled = true →
          ∃ pre post finish, acts = pre ++ .turn n :: post ∧
            CarriedOut timeout policy (0 < timeout.millis ∧ start.isPrompt acts = true) n order
              (start.run pre).engine.now ((start.run pre).engine.eligible order.metrics) finish t) := by
  intro start t
  have hs : Sound timeout policy (0 < timeout.millis ∧ start.isPrompt acts = true) t :=
    (of_sound timeout policy _).run And.left And.right
  refine ⟨hs.attributed, ?harvests, fun n order hplaced hc => ?_⟩
  case harvests =>
    rintro pre fleet post rfl hleft
    have ht : t = ((start.run pre).act (.fleet fleet)).run post := run_append start pre (.fleet fleet :: post)
    rw [ht]
    exact run_harvests _ hleft
  have hcourse := hs.course n order hplaced hc
  refine ⟨hcourse.deliveries_le_one, fun hrunning hsettled => ?_⟩
  obtain ⟨hempty, hjobs⟩ := Engine.settled_once (n := n) hsettled
  cases hcourse with
  | awaited unseen job =>
    rcases job with hle | hj
    · -- whatever has been placed has left the queue
      have hqueue := hs.numbered.queue (by simp [Engine.isOpen, hrunning])
      rw [hempty] at hqueue
      have hall := List.drop_eq_nil_iff.1 hqueue.symm
      have hlt := (List.getElem?_eq_some_iff.1 hplaced).1
      omega
    · exact absurd (hjobs order _ hj hc).2 (by simp [Job.Phase.isFresh])
  | underWay time sensors h next job => exact absurd (hjobs order _ job hc).1 (by simp [Engine.Job.isBusy])
  | atEnd time sensors finish used job carriedOut =>
    have hmem : ⟨time, n, order, .started order sensors⟩ ∈ t.log := by
      have hfirst : ⟨time, n, order, .started order sensors⟩ ∈ t.logOf n := by
        rw [carriedOut.log]
        exact List.mem_cons_self
      exact (List.mem_filter.1 hfirst).1
    obtain ⟨pre, post, hacts, rfl, rfl⟩ := turn_of_started _ hmem
    exact ⟨pre, post, finish, hacts, carriedOut⟩

/-- an instrument that takes some time to measure the humidity -/
def slow : Instrument :=
  .scripted ⟨0, "slow", [.humidity]⟩ [[.sleep ⟨10⟩, .write .humidity ⟨0x4044000000000000⟩]] false false true

/-- one that would measure it, but is not in use -/
def dormant : Instrument := .scripted ⟨1, "dormant", [.humidity]⟩ [] false false false

/-- an order for a single reading is placed behind a subscription, before the drive loop is started; both are
dispatched, and the single reading is carried out -/
def slowReading : List Act :=
  [.fleet [slow, dormant], .op (.move (.pool (Register.ofSensors [slow.sensor, dormant.sensor]))) rfl,
    .op (.subscribe (.listener "hourly" ⟨0⟩) ⟨3600000⟩ [.humidity]) rfl,
    .op (.sendOnce (.listener "now" ⟨0⟩) [.humidity]) rfl, .op (.move .process) rfl, .op (.move .dispatch) rfl,
    .op (.move .dispatch) rfl, .turn 1, .play 1 0, .op (.move (.wait ⟨10⟩)) rfl, .play 1 0, .turn 1]

def slowRun : Chronicle := (of (.new ⟨1000⟩ .mean)).run slowReading

theorem once_delivered_slow :
    slowRun.placed[1]? = some ⟨[.humidity], .listener "now" ⟨0⟩, .once⟩ ∧ slowRun.engine.loop = .running ∧
      slowRun.engine.isSettled = true ∧ (of (.new ⟨1000⟩ .mean)).isPrompt slowReading = true ∧
      (slowRun.logOf 1).map (·.effect.isStart) = [true, false] ∧ (slowRun.harvested 1).Perm [slow.sensor] ∧
      (slowRun.engine.fleet[0]?).map Instrument.harvests = some 1 := by
  have hplaced : slowRun.placed[1]? = some ⟨[.humidity], .listener "now" ⟨0⟩, .once⟩ := by decide +kernel
  have hrunning : slowRun.engine.loop = .running := by decide +kernel
  have hsettled : slowRun.engine.isSettled = true := by decide +kernel
  have hprompt : (of (.new ⟨1000⟩ .mean)).isPrompt slowReading = true := by decide +kernel
  obtain ⟨-, hharvests, hall⟩ := once_delivered ⟨1000⟩ .mean slowReading
  obtain ⟨-, hcarried⟩ := hall 1 ⟨[.humidity], .listener "now" ⟨0⟩, .once⟩ hplaced rfl
  obtain ⟨pre, post, finish, -, hdone⟩ := hcarried hrunning hsettled
  have hlog : slowRun.logOf 1 = _ := hdone.log
  refine ⟨hplaced, hrunning, hsettled, hprompt, by rw [hlog]; rfl, ?_⟩
  have hsensors : (slowRun.logOf 1).map (·.effect.sensors) = [[slow.sensor], []] := by decide +kernel
  rw [hlog] at hsensors
  have heligible : ((of (.new ⟨1000⟩ .mean)).run pre).engine.eligible [.humidity] = [slow.sensor] :=
    (List.cons.inj hsensors).1
  refine ⟨heligible ▸ hdone.timely ⟨by decide, hprompt⟩, ?_⟩
  obtain ⟨begun, hbegun, hcounts⟩ := hharvests [] [slow, dormant] slowReading.tail rfl (by simp [slowReading, Act.turn])
  have hbegun : slowRun.begun = begun := hbegun
  have hcounts : (slowRun.engine.fleet[0]?).map Instrument.harvests =
      some (begun.countP (·.2.instrument = 0)) := (hcounts 0).trans (congrArg some (Nat.zero_add _))
  rw [hcounts, ← hbegun]
  decide +kernel

/-- a single reading has been dispatched in an engine whose cycles have no time -/
def hastyRun : Chronicle :=
  (of (.new ⟨0⟩ .mean)).run
    [.fleet [slow], .op (.move (.pool (Register.ofSensors [slow.sensor]))) rfl, .op (.move .process) rfl,
      .op (.sendOnce (.listener "now" ⟨0⟩) [.humidity]) rfl, .op (.move .dispatch) rfl]

/-- A cycle without time is due when it starts: its readings are delivered, and the sensor that was eligible has not been
harvested. -/
theorem once_not_harvested :
    hastyRun.engine.eligible [.humidity] = [slow.sensor] ∧ (hastyRun.act (.turn 0)).engine.loop = .running ∧
      (hastyRun.act (.turn 0)).engine.isSettled = true ∧
      ((hastyRun.act (.turn 0)).logOf 0).map (·.effect.isStart) = [true, false] ∧
      ¬((hastyRun.act (.turn 0)).harvested 0).Perm [slow.sensor] := by
  decide +kernel

end Chronicle

end SensorNode
