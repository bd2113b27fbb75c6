/-
The timetable of a subscription, for cycles and deliveries of any length. The due times of its ticks are at least a
period apart, the first of them a period after its job began; a cycle starts when its tick has fallen due and the
delivery before it is over.

- `Kept`: no cycle starts before its multiple of the period, and none before the one before it is over.
- `Exact`: as long as cycles are shorter than the period, they start at the multiples of the period.
- `periodic_schedule` puts these together for a whole run.
-/
import SensorNode.Proofs.Reading.Standing

namespace SensorNode

/-- a cycle of a subscription and the delivery of its readings -/
structure Round where
  start : Nat
  /-- when the recipient was through with the readings -/
  finish : Option Nat
  deriving DecidableEq, Repr, Inhabited

/-- the round ends now, unless it has ended before -/
def Round.close (now : Nat) (r : Round) : Round := { r with finish := some (r.finish.getD now) }

/-- A round begins or not, and rounds end when the job is not busy any more. -/
def Round.note (now : Nat) (begins busy : Bool) (rounds : List Round) : List Round :=
  let rounds := if begins then rounds ++ [⟨now, none⟩] else rounds
  if busy then rounds else rounds.map (Round.close now)

namespace Engine

variable {e : Engine} {k : CancelHandle} {p : Duration} {name : Nat}

/-- an engine, and the rounds of one of its subscriptions so far, oldest first -/
structure Timed where
  engine : Engine
  rounds : List Round

/-- a round begins with a cycle of the subscription and ends when no job of it is busy -/
def Timed.perform (k : CancelHandle) (t : Timed) (a : Action) : Timed where
  engine := (t.engine.perform a).1
  rounds := Round.note t.engine.now ((t.engine.perform a).2.any (Entry.begins k)) ((t.engine.perform a).1.isBusy k) t.rounds

def Timed.performAll (k : CancelHandle) (t : Timed) (actions : List Action) : Timed :=
  actions.foldl (Timed.perform k) t

/-- If time passes, the job has nothing to do at present and its tick is not due before the time is over. -/
def isPrompt (e : Engine) (name : Nat) : Action → Bool
  | .base (.move (.wait span)) =>
    match e.standing name with
    | .fresh => span.millis = 0
    | .idle due => e.now + span.millis ≤ due
    | _ => true
  | _ => true

/-- time never passes a tick of the job -/
def arePrompt (e : Engine) (name : Nat) : List Action → Bool
  | [] => true
  | a :: actions => e.isPrompt name a && (e.perform a).1.arePrompt name actions

/-! ## Rounds that keep to the timetable -/

theorem Round.close_of_finish {r : Round} {f : Nat} (h : r.finish = some f) (now : Nat) : r.close now = r := by
  obtain ⟨start, finish⟩ := r
  obtain rfl : finish = some f := h
  rfl

theorem getElem?_close {rounds : List Round} {now i : Nat} {r : Round}
    (h : (rounds.map (Round.close now))[i]? = some r) : ∃ old, rounds[i]? = some old ∧ r = old.close now := by
  rw [List.getElem?_map] at h
  obtain ⟨old, hold, rfl⟩ := Option.map_eq_some_iff.1 h
  exact ⟨old, hold, rfl⟩

/-- the rounds so far, for a job that began at `t₀` -/
structure Kept (t₀ : Nat) (p : Duration) (now : Nat) (s : Job.Standing) (rounds : List Round) : Prop where
  spaced : ∀ i r, rounds[i]? = some r → t₀ + (i + 1) * p.millis ≤ r.start
  past : ∀ r ∈ rounds, r.start ≤ now ∧ ∀ f, r.finish = some f → r.start ≤ f ∧ f ≤ now
  apart : ∀ i r r', rounds[i]? = some r → rounds[i + 1]? = some r' → ∃ f, r.finish = some f ∧ f ≤ r'.start
  closed : s.isBusy = false → ∀ r ∈ rounds, ∃ f, r.finish = some f
  under : s.isBusy = true → ∃ past r, rounds = past ++ [r] ∧ r.finish = none
  due : ∀ d, s = .idle d ∨ s = .busy d → t₀ + (rounds.length + 1) * p.millis ≤ d
  begun : s ≠ .fresh

variable {t₀ now : Nat} {s : Job.Standing} {rounds : List Round}

theorem Kept.wait (h : Kept t₀ p now s rounds) {now' : Nat} (hle : now ≤ now') : Kept t₀ p now' s rounds :=
  { h with past := fun r hr => ⟨(h.past r hr).1.trans hle, fun f hf => ⟨((h.past r hr).2 f hf).1,
      ((h.past r hr).2 f hf).2.trans hle⟩⟩ }

theorem Kept.map_close (h : Kept t₀ p now s rounds) (hs : s.isBusy = false) : rounds.map (Round.close now) = rounds := by
  refine (List.map_congr_left fun r hr => ?_).trans (List.map_id' rounds)
  obtain ⟨f, hf⟩ := h.closed hs r hr
  exact Round.close_of_finish hf now

/-- a tick is taken, and a round begins -/
theorem Kept.begin {d next : Nat} (h : Kept t₀ p now (.idle d) rounds) (hd : d ≤ now) (hnext : d + p.millis ≤ next) :
    Kept t₀ p now (.busy next) (rounds ++ [⟨now, none⟩]) := by
  have hdue := h.due d (Or.inl rfl)
  -- a round of the longer list is one of the old ones, or the new one
  have cases : ∀ {i r}, (rounds ++ [⟨now, none⟩])[i]? = some r →
      rounds[i]? = some r ∨ i = rounds.length ∧ r = ⟨now, none⟩ := by
    intro i r hr
    rcases Nat.lt_trichotomy i rounds.length with hi | hi | hi
    · rw [List.getElem?_append_left hi] at hr
      exact Or.inl hr
    · rw [hi, List.getElem?_concat_length] at hr
      exact Or.inr ⟨hi, (Option.some.inj hr).symm⟩
    · rw [List.getElem?_eq_none (by simp; omega)] at hr
      exact absurd hr (by simp)
  refine ⟨?spaced, ?past, ?apart, by simp [Job.Standing.isBusy], fun _ => ⟨rounds, _, rfl, rfl⟩, ?due, by simp⟩
  case spaced =>
    intro i r hr
    rcases cases hr with hr | ⟨rfl, rfl⟩
    · exact h.spaced i r hr
    · exact hdue.trans hd
  case past =>
    intro r hr
    rcases List.mem_append.1 hr with hr | hr
    · exact h.past r hr
    · obtain rfl := List.mem_singleton.1 hr
      exact ⟨le_rfl, fun f hf => absurd hf (by simp)⟩
  case apart =>
    intro i r r' hr hr'
    rcases cases hr with hr | ⟨rfl, rfl⟩
    · rcases cases hr' with hr' | ⟨-, rfl⟩
      · exact h.apart i r r' hr hr'
      · obtain ⟨f, hf⟩ := h.closed rfl r (List.mem_of_getElem? hr)
        exact ⟨f, hf, ((h.past r (List.mem_of_getElem? hr)).2 f hf).2⟩
    · rw [List.getElem?_eq_none (by simp)] at hr'
      exact absurd hr' (by simp)
  case due =>
    rintro d' (hd' | hd')
    · exact absurd hd' (by simp)
    · obtain rfl := Job.Standing.busy.inj hd'
      rw [List.length_append, List.length_singleton, Nat.add_mul, Nat.one_mul]
      omega

/-- the round that is under way is over -/
theorem Kept.finish {next : Nat} (h : Kept t₀ p now (.busy next) rounds) {s' : Job.Standing}
    (hs' : s' = .idle next ∨ s' = .gone) : Kept t₀ p now s' (rounds.map (Round.close now)) := by
  refine ⟨?spaced, ?past, ?apart, ?closed, ?under, ?due, by rcases hs' with rfl | rfl <;> simp⟩
  case spaced =>
    intro i r hr
    obtain ⟨old, hold, rfl⟩ := getElem?_close hr
    exact h.spaced i old hold
  case past =>
    intro r hr
    obtain ⟨old, hold, rfl⟩ := List.mem_map.1 hr
    refine ⟨(h.past old hold).1, fun f hf => ?_⟩
    cases hfinish : old.finish with
    | none =>
      simp only [Round.close, hfinish, Option.getD_none, Option.some.injEq] at hf
      subst hf
      exact ⟨(h.past old hold).1, le_rfl⟩
    | some f' =>
      rw [Round.close_of_finish hfinish, hfinish] at hf
      obtain rfl := Option.some.inj hf
      rw [Round.close_of_finish hfinish]
      exact (h.past old hold).2 f' hfinish
  case apart =>
    intro i r r' hr hr'
    obtain ⟨old, hold, rfl⟩ := getElem?_close hr
    obtain ⟨old', hold', rfl⟩ := getElem?_close hr'
    obtain ⟨f, hf, hle⟩ := h.apart i old old' hold hold'
    exact ⟨f, by rw [Round.close_of_finish hf, hf], hle⟩
  case closed =>
    intro _ r hr
    obtain ⟨old, -, rfl⟩ := List.mem_map.1 hr
    exact ⟨_, rfl⟩
  case under => rcases hs' with rfl | rfl <;> simp [Job.Standing.isBusy]
  case due =>
    intro d hd
    rw [List.length_map]
    rcases hs' with rfl | rfl
    · obtain rfl : next = d := by simpa using hd
      exact h.due next (Or.inr rfl)
    · simp at hd

/-- nothing becomes of a job that is over, but what has become of it -/
theorem Kept.gone (h : Kept t₀ p now s rounds) : Kept t₀ p now .gone (rounds.map (Round.close now)) := by
  cases s with
  | busy next => exact h.finish (Or.inr rfl)
  | fresh => exact absurd rfl h.begun
  | idle d =>
    rw [h.map_close rfl]
    exact { h with closed := fun _ => h.closed rfl, under := by simp [Job.Standing.isBusy], due := by simp, begun := by simp }
  | gone =>
    rw [h.map_close rfl]
    exact h

theorem Kept.change (h : Kept t₀ p now s rounds) {cancelled begins : Bool} {s' : Job.Standing}
    (hc : Change p now cancelled s s' begins) : Kept t₀ p now s' (Round.note now begins s'.isBusy rounds) := by
  cases hc with
  | stays =>
    cases hs : s.isBusy with
    | true => exact h
    | false =>
      simp only [Round.note, if_neg Bool.false_ne_true, h.map_close hs]
      exact h
  | arises => exact absurd rfl h.begun
  | dies => exact absurd rfl h.begun
  | begins d hd => exact h.begin hd (le_nextTick p hd)
  | passes d hd => exact (h.begin hd (le_nextTick p hd)).finish (Or.inl rfl)
  | returns next => exact h.finish (Or.inl rfl)
  | ends => exact h.gone

/-! ## Rounds shorter than the period -/

/-- the round in place `i` is over, and took less than the period -/
def Quick (p : Duration) (rounds : List Round) (i : Nat) : Prop :=
  ∃ r f, rounds[i]? = some r ∧ r.finish = some f ∧ f < r.start + p.millis

/-- as long as all rounds are shorter than the period, the ticks are due at its multiples and are taken in time -/
structure Exact (t₀ : Nat) (p : Duration) (now : Nat) (s : Job.Standing) (rounds : List Round) : Prop where
  starts : ∀ i r, rounds[i]? = some r → (∀ j < i, Quick p rounds j) → r.start = t₀ + (i + 1) * p.millis
  busy : ∀ d, s = .busy d → (∀ j, j + 1 < rounds.length → Quick p rounds j) → d = t₀ + (rounds.length + 1) * p.millis
  idle : ∀ d, s = .idle d → (∀ j < rounds.length, Quick p rounds j) →
    d = t₀ + (rounds.length + 1) * p.millis ∧ now ≤ d

theorem Quick.of_append {r : Round} {i : Nat} (h : Quick p (rounds ++ [r]) i) (hi : i < rounds.length) :
    Quick p rounds i := by
  obtain ⟨r', f, hr, hf⟩ := h
  rw [List.getElem?_append_left hi] at hr
  exact ⟨r', f, hr, hf⟩

theorem Exact.begin {d : Nat} (h : Exact t₀ p now (.idle d) rounds) (hd : d ≤ now) :
    Exact t₀ p now (.busy (nextTick p d now)) (rounds ++ [⟨now, none⟩]) := by
  -- with all rounds so far shorter than the period, the tick is taken at the time at which it is due
  have intime : (∀ j < rounds.length, Quick p (rounds ++ [⟨now, none⟩]) j) →
      now = t₀ + (rounds.length + 1) * p.millis ∧ d = now := by
    intro hquick
    obtain ⟨hdue, hle⟩ := h.idle d rfl fun j hj => (hquick j hj).of_append hj
    omega
  refine ⟨?starts, ?busy, by simp⟩
  case starts =>
    intro i r hr hquick
    rcases Nat.lt_or_ge i rounds.length with hi | hi
    · rw [List.getElem?_append_left hi] at hr
      exact h.starts i r hr fun j hj => (hquick j hj).of_append (hj.trans hi)
    · obtain rfl : i = rounds.length := by
        have := (List.getElem?_eq_some_iff.1 hr).1
        simp at this
        omega
      rw [List.getElem?_concat_length] at hr
      obtain rfl := Option.some.inj hr
      exact (intime hquick).1
  case busy =>
    intro d' hd' hquick
    obtain rfl := Job.Standing.busy.inj hd'
    have hlength : (rounds ++ [(⟨now, none⟩ : Round)]).length = rounds.length + 1 := by simp
    obtain ⟨hnow, rfl⟩ := intime fun j hj => hquick j (by omega)
    rw [nextTick_self, hlength, Nat.add_mul (rounds.length + 1), Nat.one_mul]
    omega

theorem Exact.finish {next : Nat} (h : Exact t₀ p now (.busy next) rounds) (hk : Kept t₀ p now (.busy next) rounds)
    {s' : Job.Standing} (hs' : s' = .idle next ∨ s' = .gone) : Exact t₀ p now s' (rounds.map (Round.close now)) := by
  -- rounds before the last were over already
  have before : ∀ j, j + 1 < rounds.length → Quick p (rounds.map (Round.close now)) j → Quick p rounds j := by
    rintro j hj ⟨r, f, hr, hf, hlt⟩
    obtain ⟨old, hold, rfl⟩ := getElem?_close hr
    obtain ⟨f', hf', -⟩ := hk.apart j old _ hold (List.getElem?_eq_getElem hj)
    rw [Round.close_of_finish hf'] at hf hlt
    exact ⟨old, f, hold, hf, hlt⟩
  refine ⟨?starts, by rcases hs' with rfl | rfl <;> simp, ?idle⟩
  case starts =>
    intro i r hr hquick
    obtain ⟨old, hold, rfl⟩ := getElem?_close hr
    have hi := (List.getElem?_eq_some_iff.1 hold).1
    exact h.starts i old hold fun j hj => before j (by omega) (hquick j hj)
  case idle =>
    intro d hd hquick
    rw [List.length_map] at hquick ⊢
    rcases hs' with rfl | rfl
    · obtain rfl : next = d := by simpa using hd
      have hdue := h.busy next rfl fun j hj => before j hj (hquick j (by omega))
      refine ⟨hdue, ?_⟩
      -- the last round took less than the period too
      obtain ⟨past, last, rfl, hopen⟩ := hk.under rfl
      obtain ⟨r, f, hr, hf, hlt⟩ := hquick past.length (by simp)
      obtain ⟨old, hold, rfl⟩ := getElem?_close hr
      have hstart := h.starts past.length old hold fun j hj => before j (by simpa using hj) (hquick j (by simp; omega))
      rw [List.getElem?_concat_length] at hold
      obtain rfl := Option.some.inj hold
      simp only [Round.close, hopen, Option.getD_none, Option.some.injEq] at hf hlt
      simp only [List.length_append, List.length_singleton, Nat.add_mul, Nat.one_mul] at hdue hstart ⊢
      omega
    · simp at hd

theorem Exact.gone (h : Exact t₀ p now s rounds) (hk : Kept t₀ p now s rounds) :
    Exact t₀ p now .gone (rounds.map (Round.close now)) := by
  cases s with
  | busy next => exact h.finish hk (Or.inr rfl)
  | fresh => exact absurd rfl hk.begun
  | idle d =>
    rw [hk.map_close rfl]
    exact ⟨h.starts, by simp, by simp⟩
  | gone =>
    rw [hk.map_close rfl]
    exact h

theorem Exact.change (h : Exact t₀ p now s rounds) (hk : Kept t₀ p now s rounds) {cancelled begins : Bool}
    {s' : Job.Standing} (hc : Change p now cancelled s s' begins) :
    Exact t₀ p now s' (Round.note now begins s'.isBusy rounds) := by
  cases hc with
  | stays =>
    cases hs : s.isBusy with
    | true => exact h
    | false =>
      simp only [Round.note, if_neg Bool.false_ne_true, hk.map_close hs]
      exact h
  | arises => exact absurd rfl hk.begun
  | dies => exact absurd rfl hk.begun
  | begins d hd => exact h.begin hd
  | passes d hd => exact (h.begin hd).finish (hk.begin hd (le_nextTick p hd)) (Or.inl rfl)
  | returns next => exact h.finish hk (Or.inl rfl)
  | ends => exact h.gone hk

/-- when all rounds before it are shorter than the period, the next round has begun once its time is past -/
theorem Exact.lt_length (h : Exact t₀ p now s rounds) (hk : Kept t₀ p now s rounds) (hs : s ≠ .gone) {i : Nat}
    (hquick : ∀ j < i, Quick p rounds j) (hnow : t₀ + (i + 1) * p.millis < now) : i < rounds.length := by
  by_contra hi
  have hall : ∀ j < rounds.length, Quick p rounds j := fun j hj => hquick j (by omega)
  cases s with
  | gone => exact hs rfl
  | fresh => exact hk.begun rfl
  | idle d =>
    obtain ⟨hdue, hle⟩ := h.idle d rfl hall
    have : (rounds.length + 1) * p.millis ≤ (i + 1) * p.millis := Nat.mul_le_mul_right _ (by omega)
    omega
  | busy d =>
    obtain ⟨past, last, rfl, hopen⟩ := hk.under rfl
    obtain ⟨r, f, hr, hf, -⟩ := hall past.length (by simp)
    rw [List.getElem?_concat_length] at hr
    obtain rfl := Option.some.inj hr
    exact absurd (hopen.symm.trans hf) (by simp)

/-! ## Runs -/

theorem Exact.wait (h : Exact t₀ p now s rounds) {now' : Nat} (hle : ∀ d, s = .idle d → now' ≤ d) :
    Exact t₀ p now' s rounds :=
  { h with idle := fun d hd hquick => ⟨(h.idle d hd hquick).1, hle d hd⟩ }

/-- the rounds of a timed engine keep to the timetable of a job that began at `t₀` -/
structure Timed.OnTime (t₀ : Nat) (p : Duration) (k : CancelHandle) (name : Nat) (t : Timed) : Prop where
  tracked : Tracked p k name t.engine
  kept : Kept t₀ p t.engine.now (t.engine.standing name) t.rounds

variable {t : Timed}

theorem Timed.OnTime.perform (h : t.OnTime t₀ p k name) (a : Action) : (t.perform k a).OnTime t₀ p k name := by
  have htracked := h.tracked.perform a
  refine ⟨htracked, ?_⟩
  have hkept := h.kept.change (perform_change h.tracked a)
  simp only [Timed.perform, htracked.isBusy_eq]
  rcases perform_now t.engine a with hnow | ⟨span, rfl⟩
  · rw [hnow]
    exact hkept
  · exact hkept.wait (Nat.le_add_right _ _)

theorem Timed.OnTime.performAll (h : t.OnTime t₀ p k name) (actions : List Action) :
    (t.performAll k actions).OnTime t₀ p k name := by
  induction actions generalizing t with
  | nil => exact h
  | cons a actions ih => exact ih (h.perform a)

theorem Timed.OnTime.perform_exact (h : t.OnTime t₀ p k name)
    (hexact : Exact t₀ p t.engine.now (t.engine.standing name) t.rounds) {a : Action}
    (ha : t.engine.isPrompt name a = true) :
    Exact t₀ p (t.perform k a).engine.now ((t.perform k a).engine.standing name) (t.perform k a).rounds := by
  have hexact := hexact.change h.kept (perform_change h.tracked a)
  simp only [Timed.perform, (h.tracked.perform a).isBusy_eq]
  rcases perform_now t.engine a with hnow | ⟨span, rfl⟩
  · rw [hnow]
    exact hexact
  · refine hexact.wait fun d hd => ?_
    have hidle : t.engine.standing name = .idle d := hd
    simp only [isPrompt, hidle, decide_eq_true_eq] at ha
    exact ha

theorem Timed.OnTime.performAll_exact (h : t.OnTime t₀ p k name)
    (hexact : Exact t₀ p t.engine.now (t.engine.standing name) t.rounds) {actions : List Action}
    (ha : t.engine.arePrompt name actions = true) :
    Exact t₀ p (t.performAll k actions).engine.now ((t.performAll k actions).engine.standing name)
      (t.performAll k actions).rounds := by
  induction actions generalizing t with
  | nil => exact hexact
  | cons a actions ih =>
    obtain ⟨hfirst, hrest⟩ := Bool.and_eq_true_iff.1 ha
    exact ih (h.perform a) (h.perform_exact hexact hfirst) hrest

/-- a job that has begun is over only once it is cancelled -/
theorem Timed.OnTime.performAll_live (h : t.OnTime t₀ p k name)
    (hlive : t.engine.standing name = .gone → t.engine.flags.isCancelled k = true) (actions : List Action) :
    (t.performAll k actions).engine.standing name = .gone →
      (t.performAll k actions).engine.flags.isCancelled k = true := by
  induction actions generalizing t with
  | nil => exact hlive
  | cons a actions ih =>
    refine ih (h.perform a) fun hgone => perform_raised a ?_
    have hbegun := h.kept.begun
    have hgone : (t.engine.perform a).1.standing name = .gone := hgone
    have hchange := perform_change h.tracked a
    rw [hgone] at hchange
    generalize t.engine.standing name = s, (t.engine.perform a).2.any (Entry.begins k) = begins at hchange hlive hbegun
    cases hchange with
    | stays => exact hlive rfl
    | dies => exact absurd rfl hbegun
    | ends _ hcancelled => exact hcancelled

/-- the first turn of a job -/
theorem first_turn (htracked : Tracked p k name e) {order : Order} (hj : e.jobs.find? name = some ⟨order, .fresh⟩) :
    let t := Timed.perform k ⟨e, []⟩ (.base (.move (.advance name)))
    t.engine.now = e.now ∧ t.rounds = [] ∧
      (t.engine.standing name = .idle (e.now + p.millis) ∨ t.engine.standing name = .gone ∧
        (horizon ≤ e.now + p.millis ∨ t.engine.flags.isCancelled k = true)) := by
  intro t
  have hnow : t.engine.now = e.now := by
    rcases perform_now e (.base (.move (.advance name))) with hnow | ⟨span, hspan⟩
    · exact hnow
    · exact absurd hspan (by simp)
  obtain ⟨hnone, hstanding⟩ := advance_fresh hj (htracked.cadence _ hj)
  refine ⟨hnow, ?_, hstanding.imp_right fun ⟨hgone, hwhy⟩ => ⟨hgone, hwhy.imp_right fun hcancelled => ?_⟩⟩
  · simp only [t, Timed.perform, Engine.perform, step, move, entries_of_find? hj, hnone, List.map_nil, List.any_nil,
      Round.note, if_neg Bool.false_ne_true, ite_self]
  · exact perform_raised _ hcancelled

/-- rounds that keep to the timetable are no more than the periods that have gone by -/
theorem Kept.count_le (h : Kept t₀ p now s rounds) (hp : 0 < p.millis) (time : Nat) :
    rounds.countP (fun r => r.start ≤ time) ≤ (time - t₀) / p.millis := by
  have hnone : (rounds.drop ((time - t₀) / p.millis)).countP (fun r => r.start ≤ time) = 0 := by
    refine List.countP_eq_zero.2 fun r hr => ?_
    obtain ⟨i, hi⟩ := List.getElem?_of_mem hr
    rw [List.getElem?_drop] at hi
    have hspaced := h.spaced _ r hi
    have hlt : time - t₀ < ((time - t₀) / p.millis + i + 1) * p.millis :=
      (Nat.div_lt_iff_lt_mul hp).1 (by omega)
    simp only [decide_eq_true_eq, not_le]
    omega
  calc rounds.countP (fun r => r.start ≤ time)
      = (rounds.take ((time - t₀) / p.millis)).countP (fun r => r.start ≤ time) +
          (rounds.drop ((time - t₀) / p.millis)).countP (fun r => r.start ≤ time) := by
        rw [← List.countP_append, List.take_append_drop]
    _ ≤ (rounds.take ((time - t₀) / p.millis)).length := by
        rw [hnone, Nat.add_zero]
        exact List.countP_le_length
    _ ≤ (time - t₀) / p.millis := by
        rw [List.length_take]
        exact Nat.min_le_left _ _

/-- **The timetable of a subscription.** Let the job of a subscription have its first turn at `e.now`, after any run, and
let anything happen then: cycles and deliveries take any time, shorter or longer than the period. The cycle in place `i`
starts no earlier than `i + 1` periods after `e.now`, so that by any time there are no more cycles than periods have gone
by, and every cycle and its delivery are over when the next one starts. If time never passes a tick of the job that could
be taken, then, as long as every cycle and its delivery took less than the period, each cycle starts at its multiple of
the period; and it does start, unless the subscription is cancelled. -/
theorem periodic_schedule (timeout : Duration) (policy : Reduction) (before after : List Action) (name : Nat)
    (order : Order) (p : Duration) (k : CancelHandle) (hc : order.cadence = .every p k) (hp : 0 < p.millis)
    (hj : ((new timeout policy).performAll before).jobs.find? name = some ⟨order, .fresh⟩) :
    let e := (new timeout policy).performAll before
    let actions := .base (.move (.advance name)) :: after
    let t := Timed.performAll k ⟨e, []⟩ actions
    (∀ i r, t.rounds[i]? = some r → e.now + (i + 1) * p.millis ≤ r.start) ∧
      (∀ time, t.rounds.countP (fun r => r.start ≤ time) ≤ (time - e.now) / p.millis) ∧
      (∀ i r r', t.rounds[i]? = some r → t.rounds[i + 1]? = some r' →
        ∃ f, r.finish = some f ∧ r.start ≤ f ∧ f ≤ r'.start) ∧
      (e.now + p.millis < horizon → e.arePrompt name actions = true → ∀ i, (∀ j < i, Quick p t.rounds j) →
        (∀ r, t.rounds[i]? = some r → r.start = e.now + (i + 1) * p.millis) ∧
          (t.engine.flags.isCancelled k = false → e.now + (i + 1) * p.millis < t.engine.now → i < t.rounds.length)) := by
  intro e actions t
  have hk : order.isFor k = true := (order.isFor_iff k).2 ⟨p, hc⟩
  have hregular : Regular e := performAll_regular (new_regular timeout policy) before
  have hsole : Sole k name e := (performAll_single (new_single timeout policy) before).sole hregular hj hk
  have htracked : Tracked p k name e :=
    ⟨hsole, fun job hj' => by obtain rfl := Option.some.inj (hj.symm.trans hj'); exact hc⟩
  -- the first turn, and what holds from then on
  obtain ⟨hnow, hrounds, hstanding⟩ := first_turn htracked hj
  set t₁ := Timed.perform k ⟨e, []⟩ (.base (.move (.advance name)))
  have hnot : t₁.engine.standing name ≠ .fresh ∧ (t₁.engine.standing name).isBusy = false := by
    rcases hstanding with hs | ⟨hs, -⟩ <;> rw [hs] <;> exact ⟨by simp, rfl⟩
  have hfirst : t₁.OnTime e.now p k name := by
    refine ⟨htracked.perform _, ?_⟩
    rw [hrounds]
    refine ⟨by simp, by simp, by simp, by simp, fun hbusy => absurd (hbusy.symm.trans hnot.2) (by decide), ?_, hnot.1⟩
    intro d hd
    rcases hstanding with hs | ⟨hs, -⟩ <;> rw [hs] at hd
    · obtain rfl : e.now + p.millis = d := by simpa using hd
      simp
    · simp at hd
  have ht : t = t₁.performAll k after := rfl
  have hontime := hfirst.performAll after
  refine ⟨ht ▸ hontime.kept.spaced, ht ▸ hontime.kept.count_le hp, ?apart, ?exact⟩
  case apart =>
    intro i r r' hr hr'
    obtain ⟨f, hf, hle⟩ := hontime.kept.apart i r r' hr hr'
    exact ⟨f, hf, ((hontime.kept.past r (List.mem_of_getElem? hr)).2 f hf).1, hle⟩
  case exact =>
    intro hin hprompt i hquick
    have hstart : Exact e.now p t₁.engine.now (t₁.engine.standing name) t₁.rounds := by
      rw [hrounds, hnow]
      refine ⟨by simp, fun d hd => ?_, fun d hd _ => ?_⟩
      · rcases hstanding with hs | ⟨hs, -⟩ <;> rw [hs] at hd <;> simp at hd
      · rcases hstanding with hs | ⟨hs, -⟩ <;> rw [hs] at hd
        · obtain rfl := Job.Standing.idle.inj hd
          simp
        · simp at hd
    have hexact := hfirst.performAll_exact hstart (Bool.and_eq_true_iff.1 hprompt).2
    refine ⟨fun r hr => hexact.starts i r hr hquick, fun hlive hpast => ?_⟩
    refine hexact.lt_length hontime.kept (fun hgone => ?_) hquick hpast
    have hcancelled := hfirst.performAll_live (fun hs => ?_) after hgone
    · exact absurd (hcancelled.symm.trans hlive) (by decide)
    · rcases hstanding with hs' | ⟨-, hlate | hcancelled⟩
      · rw [hs'] at hs
        exact absurd hs (by simp)
      · omega
      · exact hcancelled

/-- a subscription is dispatched -/
def dispatched : List Action :=
  let probe : Sensor := ⟨0, "probe", [.humidity]⟩
  [.base (.move (.sense 0 [] [] [.scripted probe [] false false true])), .base (.move (.pool (.ofSensors [probe]))),
    .base (.move .process), .base (.subscribe (.listener "log" ⟨100⟩) ⟨1000⟩ [.humidity]), .base (.move .dispatch),
    .base (.move (.wait ⟨7⟩))]

/-- The first delivery takes until after the second tick. The third cycle is under way at the end. -/
def overrun : List Action :=
  let returns : Action := .base (.move (.sense 0 [(0, .returned)] [] []))
  let turn : Action := .base (.move (.advance 0))
  [.base (.move (.wait ⟨1000⟩)), turn, returns, turn, .linger 0 2300, .base (.move (.wait ⟨1293⟩)), turn, turn, returns,
    turn, .base (.move (.wait ⟨100⟩)), turn, .base (.move (.wait ⟨607⟩)), turn]

theorem periodic_schedule_overrun :
    let e := (new ⟨500⟩ .mean).performAll dispatched
    let actions : List Action := .base (.move (.advance 0)) :: overrun
    let t := Timed.performAll ⟨0⟩ ⟨e, []⟩ actions
    e.now = 7 ∧ e.arePrompt 0 actions = true ∧
      t.rounds = [⟨1007, some 2300⟩, ⟨2300, some 2400⟩, ⟨3007, none⟩] ∧
      (∀ i r, t.rounds[i]? = some r → 7 + (i + 1) * 1000 ≤ r.start) ∧
      t.rounds.countP (fun r => r.start ≤ 3006) ≤ 2 ∧ ∀ r, t.rounds[0]? = some r → r.start = 7 + 1 * 1000 := by
  intro e actions t
  have hprompt : e.arePrompt 0 actions = true := by decide
  obtain ⟨hspaced, hcount, -, hexact⟩ := periodic_schedule ⟨500⟩ .mean dispatched overrun 0
    ⟨[.humidity], .listener "log" ⟨100⟩, .every ⟨1000⟩ ⟨0⟩⟩ ⟨1000⟩ ⟨0⟩ rfl (by decide) rfl
  have hfirst := hexact (by decide) hprompt 0 fun j hj => absurd hj (Nat.not_lt_zero j)
  exact ⟨rfl, hprompt, by decide, hspaced, hcount 3006, hfirst.1⟩

end Engine

end SensorNode
