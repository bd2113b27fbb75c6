/-
Schedules of a harvest cycle: who writes, complains, returns or dies, in the order in which it happens, up to the
moment at which the pipe is drained. A cycle follows a schedule; what it leaves in the queues, in the errors and on the
seats is read off the schedule (`follow_find?`, `follow_errors`, `mem_completed_follow`).
-/
import SensorNode.Harvest.Cycle
import SensorNode.Proofs.Keyed

namespace SensorNode.Cycle

/-! ## Events -/

/-- how a harvest stands after an event that ends it -/
def Event.end? : Event → Option Seat.Status
  | .returned => some .returned
  | .died => some .died
  | _ => none

/-- the finite value that an event writes to a requested metric -/
def Event.sampleFor (m : Metric) : Event → Option Sample
  | .write m' s | .writeIfWanted m' s => if m' = m ∧ s.isFinite then some s else none
  | _ => none

/-- the error that an event of `source` reports; a value that is not finite is one -/
def Event.error? (requested : List Metric) (source : String) : Event → Option HarvestError
  | .write m s => if s.isFinite then none else some ⟨source, some m, HarvestError.nonFinite s⟩
  | .writeIfWanted m s =>
    if m ∈ requested ∧ ¬s.isFinite then some ⟨source, some m, HarvestError.nonFinite s⟩ else none
  | .fail m message => some ⟨source, m, message⟩
  | _ => none

/-! ## Schedules -/

/-- something that the sensor in one seat does at one time -/
structure Moment where
  time : Nat
  seat : Nat
  event : Event

/-- what the sensors of a cycle do until its pipe is drained, in the order in which they do it -/
structure Schedule (sources : List String) (deadline : Nat) where
  moments : List Moment
  seated : ∀ x ∈ moments, x.seat < sources.length
  /-- a sensor does nothing after its end -/
  ends : moments.Pairwise fun x y => x.event.end?.isSome → x.seat ≠ y.seat
  /-- no sensor ends just at the deadline -/
  clear : ∀ x ∈ moments, x.event.end?.isSome → x.time ≠ deadline

/-- an end is noticed up to the deadline; a sensor that goes on beyond it is given up, though not yet silent -/
def Moment.isNoticed (deadline : Nat) (x : Moment) : Bool := x.event.end?.isNone || x.time ≤ deadline

/-- the cycle up to the draining of its pipe -/
def follow (c : Cycle) (deadline : Nat) (moments : List Moment) : Cycle :=
  c.run ((moments.filter (·.isNoticed deadline)).map fun x => (x.seat, x.event))

namespace Schedule

variable {sources : List String} {deadline : Nat}

/-- the sensor in seat `n` returns before the deadline -/
def completes (s : Schedule sources deadline) (n : Nat) : Bool :=
  s.moments.any fun x => x.seat = n && x.event.end? = some .returned && x.time < deadline

/-- the finite values that the sensors which complete write to `m`, in the order of writing -/
def written (s : Schedule sources deadline) (m : Metric) : List Sample :=
  s.moments.filterMap fun x => if s.completes x.seat then x.event.sampleFor m else none

/-- the errors that the sensors report, whether they complete or not, in the order of reporting -/
def reported (s : Schedule sources deadline) (metrics : List Metric) : List HarvestError :=
  s.moments.filterMap fun x => (sources[x.seat]?).bind fun source => x.event.error? metrics source

/-- what a cycle for `metrics` comes to that follows the schedule -/
def outcome (s : Schedule sources deadline) (metrics : List Metric) (policy : Reduction) : CycleOutcome :=
  ((start sources metrics).follow deadline s.moments).outcome policy

end Schedule

/-! ## One event -/

theorem apply_pipe (c : Cycle) (n : Nat) (event : Event) (source : String)
    (h : c.seats[n]? = some ⟨source, .harvesting⟩) :
    (c.apply n event).pipe = match event with
      | .write m s => c.pipe.write source m s
      | .writeIfWanted m s => if c.pipe.wants m then c.pipe.write source m s else c.pipe
      | .fail m message => c.pipe.fail source m message
      | _ => c.pipe := by
  unfold apply
  rw [h]
  cases event with
  | writeIfWanted m s => dsimp only; split_ifs <;> rfl
  | _ => rfl

theorem apply_seats (c : Cycle) (n : Nat) (event : Event) (source : String)
    (h : c.seats[n]? = some ⟨source, .harvesting⟩) :
    (c.apply n event).seats = match event.end? with
      | some status => c.seats.set n ⟨source, status⟩
      | none => c.seats := by
  unfold apply
  rw [h]
  cases event with
  | writeIfWanted m s => dsimp only [Event.end?]; split_ifs <;> rfl
  | _ => rfl

theorem apply_of_not_harvesting (c : Cycle) (n : Nat) (event : Event)
    (h : ∀ source, c.seats[n]? ≠ some ⟨source, .harvesting⟩) : c.apply n event = c := by
  unfold apply
  split
  · rename_i source hs
    exact absurd hs (h source)
  · rfl

theorem write_find? (p : Pipe) (source : String) (m m' : Metric) (s : Sample) :
    (p.write source m' s).queues.find? m =
      (p.queues.find? m).map (· ++ ((Event.write m' s).sampleFor m).toList.map (ReadingResult.mk source)) := by
  simp only [Pipe.write, Event.sampleFor]
  by_cases hf : s.isFinite = true
  · rw [if_pos hf, Keyed.find?_modify]
    by_cases hm : m' = m
    · subst hm
      simp [hf]
    · have hne : m ≠ m' := fun h => hm h.symm
      simp [hm, hne]
  · simp [hf, Pipe.fail]

theorem write_errors (p : Pipe) (source : String) (requested : List Metric) (m : Metric) (s : Sample) :
    (p.write source m s).errors = p.errors ++ ((Event.write m s).error? requested source).toList := by
  simp only [Pipe.write, Event.error?]
  by_cases hf : s.isFinite = true <;> simp [hf, Pipe.fail]

/-- an event puts its finite value into the queue of its metric, if that metric is requested -/
theorem apply_find? (c : Cycle) (n : Nat) (event : Event) (source : String) (m : Metric)
    (h : c.seats[n]? = some ⟨source, .harvesting⟩) :
    (c.apply n event).pipe.queues.find? m =
      (c.pipe.queues.find? m).map (· ++ (event.sampleFor m).toList.map (ReadingResult.mk source)) := by
  rw [apply_pipe c n event source h]
  cases event with
  | write m' s => exact write_find? c.pipe source m m' s
  | writeIfWanted m' s =>
    dsimp only
    split_ifs with hw
    · exact write_find? c.pipe source m m' s
    · by_cases hm : m' = m
      · have hnone : c.pipe.queues.find? m = none := by
          rw [← hm]
          simpa [Pipe.wants, Keyed.contains] using hw
        simp [hnone]
      · simp [Event.sampleFor, hm]
  | _ => simp [Event.sampleFor, Pipe.fail]

/-- an event adds its error to the errors -/
theorem apply_errors (c : Cycle) (n : Nat) (event : Event) (source : String) (requested : List Metric)
    (h : c.seats[n]? = some ⟨source, .harvesting⟩) (hw : ∀ m, c.pipe.wants m = true ↔ m ∈ requested) :
    (c.apply n event).pipe.errors = c.pipe.errors ++ (event.error? requested source).toList := by
  rw [apply_pipe c n event source h]
  cases event with
  | write m s => exact write_errors c.pipe source requested m s
  | writeIfWanted m s =>
    have hm := hw m
    dsimp only
    split_ifs with hwm
    · rw [write_errors c.pipe source requested]
      by_cases hf : s.isFinite = true <;> simp [Event.error?, hm.1 hwm, hf]
    · have : m ∉ requested := fun h => hwm (hm.2 h)
      simp [Event.error?, this]
  | fail m message => simp [Event.error?, Pipe.fail]
  | _ => simp [Event.error?]

end SensorNode.Cycle
