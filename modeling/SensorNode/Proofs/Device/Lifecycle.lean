/-
The life of a device, over runs of whole operations with anything in between. `Sound` says what the watch, the handlers
and the reading engine are in each part of life; every operation keeps to it (`undergo_sound`). What it says of a closed
device is that nothing is left which could bring it back: no handler resumes the watch, every listener has ended, and
the engine has no subscription. So life only moves forward, and once it is closed nothing reaches the device any more
(`lifecycle_forward`).
-/
import SensorNode.Proofs.Device.Procedures

namespace SensorNode.Device

variable {d d' : Device}

/-! ## What holds throughout -/

/-- nothing is left that could bring a closed device back -/
structure IsStill (d : Device) : Prop where
  resumption : d.watch.resumption = none
  listeners : ∀ l ∈ d.watch.listeners, l.stage = .ended
  subscriptions : d.engine.subscriptions = []

structure Sound (d : Device) : Prop where
  bus : d.bus.Sound
  unlocked : d.watch.locked = false
  resumes : ∀ n, d.watch.resumption = some n → d.bus.kind? n = some .loggedOn
  /-- nobody but the watch waits for a login -/
  awaited : ∀ n, d.bus.WaitsFor n .loggedOn → d.watch.resumption = some n
  unbegun : d.lifecycle = .uninitialized → d.watch = .new
  still : d.lifecycle = .closed → d.IsStill

theorem new_sound (id : String) (harvestTimeout scanTimeout : Duration) (policy : Reduction) (threshold : Float) :
    Sound (new id harvestTimeout scanTimeout policy threshold) where
  bus := Bus.new_sound
  unlocked := rfl
  resumes _ h := by cases h
  awaited _ h := by cases h.2
  unbegun _ := rfl
  still h := by cases h

/-- who waits, and for what, is as it was when events have been published -/
theorem waitsFor_emitAll {bus : Bus} {events : List DomainEvent} (h : bus = d.bus.emitAll events) {n : Nat}
    {kind : DomainEventKind} : bus.WaitsFor n kind ↔ d.bus.WaitsFor n kind :=
  Bus.waitsFor_congr (by rw [h, Bus.emitAll_handlers])

theorem kind?_emitAll {bus : Bus} {events : List DomainEvent} (h : bus = d.bus.emitAll events) (n : Nat) :
    bus.kind? n = d.bus.kind? n := by
  unfold Bus.kind?
  rw [h, Bus.emitAll_handlers]

theorem Sound.spares (h : Sound d) (hs : Spares d d') : Sound d' := by
  obtain ⟨events, hbus⟩ := hs.bus
  exact {
    bus := by rw [hbus]; exact h.bus.emitAll events
    unlocked := by rw [hs.watch]; exact h.unlocked
    resumes := fun n hn => by
      rw [hs.watch] at hn
      rw [kind?_emitAll hbus]
      exact h.resumes n hn
    awaited := fun n hn => by
      rw [hs.watch]
      exact h.awaited n ((waitsFor_emitAll hbus).1 hn)
    unbegun := fun hlife => by
      rw [hs.watch]
      exact h.unbegun (hs.lifecycle.symm.trans hlife)
    still := fun hlife => by
      have hlife : d.lifecycle = .closed := hs.lifecycle.symm.trans hlife
      obtain ⟨hresumption, hlisteners, hsubscriptions⟩ := h.still hlife
      obtain ⟨-, -, -, hsublist⟩ := hs.closed hlife
      rw [hsubscriptions] at hsublist
      exact ⟨by rw [hs.watch]; exact hresumption, by rw [hs.watch]; exact hlisteners, List.sublist_nil.1 hsublist⟩ }

/-! ## Operations -/

/-- no listener does anything before the device is initialized, or once it is closed -/
theorem Sound.listen_eq (h : Sound d) (hlife : d.lifecycle = .uninitialized ∨ d.lifecycle = .closed) (n : Nat) :
    d.listen n = d.toSite := by
  refine listen_of_ended (fun l hl => ?_) n
  rcases hlife with hlife | hlife
  · rw [h.unbegun hlife] at hl
    cases hl
  · exact (h.still hlife).listeners l hl

theorem Sound.listen (h : Sound d) (n : Nat) : Sound (d.setSite (d.listen n)) := by
  by_cases hlife : d.lifecycle = .uninitialized ∨ d.lifecycle = .closed
  · rw [h.listen_eq hlife]
    exact h
  · obtain ⟨⟨listeners, hwatch⟩, events, hbus⟩ := listen_frame d.toSite n
    have hwatch : (d.setSite (d.listen n)).watch = { d.watch with listeners } := hwatch
    have hbus : (d.setSite (d.listen n)).bus = d.bus.emitAll events := hbus
    exact {
      bus := by rw [hbus]; exact h.bus.emitAll events
      unlocked := by rw [hwatch]; exact h.unlocked
      resumes := fun n hn => by
        rw [hwatch] at hn
        rw [kind?_emitAll hbus]
        exact h.resumes n hn
      awaited := fun n hn => by
        rw [hwatch]
        exact h.awaited n ((waitsFor_emitAll hbus).1 hn)
      unbegun := fun hnew => absurd (Or.inl hnew) hlife
      still := fun hclosed => absurd (Or.inr hclosed) hlife }

theorem Sound.close (h : Sound d) : Sound d.close := by
  by_cases hclosed : d.lifecycle = .closed
  · rw [close_of_closed hclosed]
    exact h
  obtain ⟨flags, fleet, listeners, ledger, hended, hclose⟩ := close_eq hclosed
  have hbus : (d.watch.resumption.elim d.bus d.bus.abort).Sound := by
    cases d.watch.resumption with
    | none => exact h.bus
    | some n => exact h.bus.abort n
  rw [hclose]
  exact {
    bus := hbus
    unlocked := h.unlocked
    resumes := fun _ hn => by cases hn
    awaited := fun n hn => by
      -- the only one that waited for a login has been aborted
      exfalso
      cases hresumption : d.watch.resumption with
      | none =>
        rw [hresumption] at hn
        exact absurd ((h.awaited n hn).symm.trans hresumption) (by simp)
      | some m =>
        rw [hresumption] at hn
        obtain ⟨hne, hn⟩ := Bus.waitsFor_abort.1 hn
        exact hne (Option.some.inj ((h.awaited n hn).symm.trans hresumption))
    unbegun := fun hlife => by cases hlife
    still := fun _ => ⟨rfl, hended, rfl⟩ }

/-- the device once a handler has looked at an event, whatever it does about it -/
def polled (d : Device) (n : Nat) : Device := { d with bus := (d.bus.poll n).2 }

theorem Sound.polled (h : Sound d) (n : Nat) : Sound (d.polled n) where
  bus := h.bus.poll n
  unlocked := h.unlocked
  resumes m hm := (Bus.kind?_poll n).trans (h.resumes m hm)
  awaited m hm := h.awaited m (Bus.waitsFor_poll.1 hm).1
  unbegun := h.unbegun
  still hlife := { h.still hlife with }

/-- What becomes of a device when a handler has looked at an event. The watch is resumed only in a device that has begun
and is not closed. -/
theorem Sound.handle_cases (h : Sound d) (n : Nat) :
    ((d.bus.poll n).1 = some .removed ∧ d.handle n = (d.polled n).reset.close) ∨
      (d.bus.poll n).1 ≠ some .removed ∧ (d.handle n = d.polled n ∨
        (d.lifecycle = .initialized ∨ d.lifecycle = .operating) ∧ (d.bus.poll n).1 = some .loggedOn ∧
          ∃ state listeners, d.handle n = (d.polled n).setSite
            ((d.polled n).setWatch { d.watch with state, listeners })) := by
  unfold handle
  rcases hpoll : d.bus.poll n with ⟨event, bus⟩
  have hbus : d.polled n = { d with bus } := by rw [Device.polled, hpoll]
  rw [hbus]
  match event with
  | some .removed => exact Or.inl ⟨rfl, rfl⟩
  | none | some (.moved ..) | some (.submitted _) => exact Or.inr ⟨by simp, Or.inl rfl⟩
  | some .loggedOn =>
    refine Or.inr ⟨by simp, Or.inr ⟨?_, rfl, ?_⟩⟩
    · -- the handler is the one that the watch keeps, and there is none before it has begun or once it is closed
      have hresumption := h.awaited n (Bus.waitsFor_of_poll (congrArg Prod.fst hpoll))
      cases hlife : d.lifecycle with
      | uninitialized =>
        rw [h.unbegun hlife] at hresumption
        cases hresumption
      | closed =>
        rw [(h.still hlife).resumption] at hresumption
        cases hresumption
      | initialized => exact Or.inl rfl
      | operating => exact Or.inr rfl
    · obtain ⟨state, listeners, hresume⟩ := resume_eq (s := ({ d with bus } : Device).toSite) h.unlocked
      exact ⟨state, listeners, congrArg ({ d with bus } : Device).setSite hresume⟩

theorem Sound.handle (h : Sound d) (n : Nat) : Sound (d.handle n) := by
  rcases h.handle_cases n with ⟨-, hd⟩ | ⟨-, hd | ⟨hlife, -, state, listeners, hd⟩⟩ <;> rw [hd]
  · exact ((h.polled n).spares (reset_spares _)).close
  · exact h.polled n
  · exact {
      bus := h.bus.poll n
      unlocked := h.unlocked
      resumes := (h.polled n).resumes
      awaited := (h.polled n).awaited
      unbegun := fun hnew => by rcases hlife with hlife | hlife <;> cases hlife.symm.trans hnew
      still := fun hclosed => by rcases hlife with hlife | hlife <;> cases hlife.symm.trans hclosed }

theorem Sound.init (h : Sound d) : Sound d.init.1 := by
  by_cases hlife : d.lifecycle = .uninitialized
  swap
  · rw [init_refused hlife]
    exact h
  have hwatch := h.unbegun hlife
  have hinstalled : Sound { d with bus := (d.bus.once .removed).2 } := {
    bus := h.bus.once .removed
    unlocked := h.unlocked
    resumes := fun n hn => by
      have hn : d.watch.resumption = some n := hn
      rw [hwatch] at hn
      cases hn
    awaited := fun n hn => (Bus.waitsFor_once.1 hn).elim (h.awaited n) fun hnew => by cases hnew.2
    unbegun := h.unbegun
    still := fun hclosed => { h.still hclosed with } }
  obtain ⟨d', hspares, hd | hd⟩ := init_cases hlife <;> rw [hd]
  · exact hinstalled.spares hspares
  have h' := hinstalled.spares hspares
  have hwatch' : d'.watch = .new := hspares.watch.trans hwatch
  have hnobody : ∀ n, ¬d'.bus.WaitsFor n .loggedOn := fun n hn => by
    have := h'.awaited n hn
    rw [hwatch'] at this
    cases this
  rcases runCall_start hwatch' with ⟨listeners, hstart⟩ | hstart <;> rw [hstart]
  · exact {
      bus := h'.bus
      unlocked := rfl
      resumes := fun _ hn => by cases hn
      awaited := fun n hn => absurd hn (hnobody n)
      unbegun := fun hnew => by cases hnew
      still := fun hclosed => by cases hclosed }
  · exact {
      bus := h'.bus.once .loggedOn
      unlocked := rfl
      resumes := fun n hn => by
        obtain rfl := Option.some.inj hn
        exact (Bus.waitsFor_once.2 (Or.inr ⟨rfl, rfl⟩)).2
      awaited := fun n hn => (Bus.waitsFor_once.1 hn).elim (fun hn => absurd hn (hnobody n)) fun hnew =>
        congrArg some hnew.1.symm
      unbegun := fun hnew => by cases hnew
      still := fun hclosed => by cases hclosed }

theorem Sound.operate (h : Sound d) : Sound d.operate.1 := by
  by_cases hlife : d.lifecycle = .initialized
  · refine Sound.spares ?_ (operate_of_initialized hlife)
    exact { h with unbegun := (fun hnew => by cases hnew), still := (fun hclosed => by cases hclosed) }
  · rw [operate_refused hlife]
    exact h

/-- a change of the registers, by a scan or otherwise -/
theorem enrol_spares (d : Device) (partition : Partition) (added : List Sensor) (removed : List String) :
    Spares d (d.run [.enrol partition added removed]).1 := run_spares (by simp [IsMild])

theorem discover_spares (d : Device) (scan : Scan) : Spares d (d.discover scan).1 := by
  unfold discover
  split_ifs
  · exact Spares.refl d
  · split
    · exact Spares.refl d
    · dsimp only
      split_ifs
      · exact Spares.refl d
      · exact enrol_spares d .discovered _ _

/-- Every operation leaves alone what mild acts leave alone, but for four: an init, a first operate, a close, and what
listeners and handlers do. -/
theorem undergo_cases (d : Device) (op : Op) :
    Spares d (d.undergo op) ∨ op = .carryOut .init ∨ op = .carryOut .operate ∨ op = .carryOut .close ∨
      (∃ n, op = .besides (.task (.listener n))) ∨ ∃ n, op = .besides (.task (.handler n)) := by
  cases op with
  | discover scan => exact Or.inl (discover_spares d scan)
  | besides b =>
    rcases besides_cases d b with ⟨m, hm, h⟩ | ⟨n, rfl⟩ | ⟨n, rfl⟩ | ⟨event, rfl⟩ | ⟨change, rfl⟩
    · exact Or.inl (by rw [undergo, h]; exact move_spares hm)
    · exact Or.inr (Or.inr (Or.inr (Or.inr (Or.inl ⟨n, rfl⟩))))
    · exact Or.inr (Or.inr (Or.inr (Or.inr (Or.inr ⟨n, rfl⟩))))
    · exact Or.inl (Spares.emit d event)
    · exact Or.inl (Spares.of_eq rfl rfl rfl rfl rfl rfl rfl)
  | carryOut p =>
    cases p with
    | init => exact Or.inr (Or.inl rfl)
    | operate => exact Or.inr (Or.inr (Or.inl rfl))
    | close => exact Or.inr (Or.inr (Or.inr (Or.inl rfl)))
    | login model => exact Or.inl (run_spares (isMild_loginActs _ model))
    | reset => exact Or.inl (reset_spares d)
    | push => exact Or.inl (run_spares (by simp [Procedure.acts, pushActs, IsMild]))
    | enrol partition added removed => exact Or.inl (enrol_spares d partition added removed)

theorem undergo_sound (h : Sound d) (op : Op) : Sound (d.undergo op) := by
  rcases undergo_cases d op with hspares | rfl | rfl | rfl | ⟨n, rfl⟩ | ⟨n, rfl⟩
  · exact h.spares hspares
  · exact h.init
  · exact h.operate
  · exact h.close
  · exact h.listen n
  · exact h.handle n

theorem undergoAll_sound (h : Sound d) (ops : List Op) : Sound (d.undergoAll ops) := by
  induction ops generalizing d with
  | nil => exact h
  | cons op ops ih => exact ih (undergo_sound h op)

/-! ## Life moves forward -/

theorem Spares.rank_le (h : Spares d d') : d.lifecycle.rank ≤ d'.lifecycle.rank := by rw [h.lifecycle]

theorem rank_le_closed (lifecycle : Lifecycle) : lifecycle.rank ≤ Lifecycle.closed.rank := by
  cases lifecycle <;> decide

theorem undergo_rank (h : Sound d) (op : Op) : d.lifecycle.rank ≤ (d.undergo op).lifecycle.rank := by
  have close_rank : ∀ d' : Device, d.lifecycle.rank ≤ d'.close.lifecycle.rank := fun d' => by
    rw [close_lifecycle]
    exact rank_le_closed _
  rcases undergo_cases d op with hspares | rfl | rfl | rfl | ⟨n, rfl⟩ | ⟨n, rfl⟩
  · exact hspares.rank_le
  · by_cases hlife : d.lifecycle = .uninitialized
    · rw [hlife]
      exact Nat.zero_le _
    · rw [show d.undergo (.carryOut .init) = d.init.1 from rfl, init_refused hlife]
  · by_cases hlife : d.lifecycle = .initialized
    · have hoperating : (d.undergo (.carryOut .operate)).lifecycle = .operating :=
        (operate_of_initialized hlife).lifecycle
      rw [hoperating, hlife]
      decide
    · rw [show d.undergo (.carryOut .operate) = d.operate.1 from rfl, operate_refused hlife]
  · exact close_rank d
  · exact le_rfl
  · show d.lifecycle.rank ≤ (d.handle n).lifecycle.rank
    rcases h.handle_cases n with ⟨-, hd⟩ | ⟨-, hd | ⟨-, -, state, listeners, hd⟩⟩ <;> rw [hd]
    · exact close_rank _
    · exact le_rfl
    · exact le_rfl

theorem undergoAll_rank (h : Sound d) (ops : List Op) : d.lifecycle.rank ≤ (d.undergoAll ops).lifecycle.rank := by
  induction ops generalizing d with
  | nil => exact le_rfl
  | cons op ops ih => exact (undergo_rank h op).trans (ih (undergo_sound h op))

/-! ## Closed for good -/

/-- what a closed device keeps, whatever it undergoes -/
structure Keeps (d d' : Device) : Prop where
  lifecycle : d'.lifecycle = .closed
  fixed : d'.fixed = d.fixed
  discovered : d'.discovered = d.discovered
  pool : d'.engine.pool = d.engine.pool

theorem Keeps.refl (hclosed : d.lifecycle = .closed) : Keeps d d := ⟨hclosed, rfl, rfl, rfl⟩

theorem Keeps.trans {d'' : Device} (h : Keeps d d') (h' : Keeps d' d'') : Keeps d d'' :=
  ⟨h'.lifecycle, h'.fixed.trans h.fixed, h'.discovered.trans h.discovered, h'.pool.trans h.pool⟩

theorem Spares.keeps (h : Spares d d') (hclosed : d.lifecycle = .closed) : Keeps d d' := by
  obtain ⟨hfixed, hdiscovered, hpool, -⟩ := h.closed hclosed
  exact ⟨h.lifecycle.trans hclosed, hfixed, hdiscovered, hpool⟩

theorem undergo_keeps (h : Sound d) (hclosed : d.lifecycle = .closed) (op : Op) : Keeps d (d.undergo op) := by
  have open_ne : ∀ {lifecycle}, lifecycle ≠ .closed → d.lifecycle ≠ lifecycle := fun hne he =>
    hne (he.symm.trans hclosed)
  rcases undergo_cases d op with hspares | rfl | rfl | rfl | ⟨n, rfl⟩ | ⟨n, rfl⟩
  · exact hspares.keeps hclosed
  · rw [show d.undergo (.carryOut .init) = d.init.1 from rfl, init_refused (open_ne (by decide))]
    exact Keeps.refl hclosed
  · rw [show d.undergo (.carryOut .operate) = d.operate.1 from rfl, operate_refused (open_ne (by decide))]
    exact Keeps.refl hclosed
  · rw [show d.undergo (.carryOut .close) = d.close from rfl, close_of_closed hclosed]
    exact Keeps.refl hclosed
  · rw [show d.undergo (.besides (.task (.listener n))) = d.setSite (d.listen n) from rfl,
      h.listen_eq (Or.inr hclosed)]
    exact Keeps.refl hclosed
  · show Keeps d (d.handle n)
    rcases h.handle_cases n with ⟨-, hd⟩ | ⟨-, hd | ⟨hlife, -⟩⟩
    · have hreset : (d.polled n).reset.lifecycle = .closed := (reset_spares _).lifecycle.trans hclosed
      rw [hd, close_of_closed hreset]
      have hpolled : Keeps d (d.polled n) := ⟨hclosed, rfl, rfl, rfl⟩
      exact hpolled.trans ((reset_spares (d.polled n)).keeps hclosed)
    · rw [hd]
      exact ⟨hclosed, rfl, rfl, rfl⟩
    · rcases hlife with hlife | hlife <;> cases hlife.symm.trans hclosed

theorem undergoAll_keeps (h : Sound d) (hclosed : d.lifecycle = .closed) (ops : List Op) :
    Keeps d (d.undergoAll ops) := by
  induction ops generalizing d with
  | nil => exact Keeps.refl hclosed
  | cons op ops ih =>
    have hone := undergo_keeps h hclosed op
    exact hone.trans (ih (undergo_sound h op) hone.lifecycle)

/-- **The life of a device.** In every run its life only moves forward. An init of a device that has begun and an operate
of one that is not merely initialized are refused and change nothing at all. A close closes it, and a closed device stays
closed, has no live subscription, keeps its registers and the pool of its engine, and takes in no change of the
ledger. -/
theorem lifecycle_forward (id : String) (harvestTimeout scanTimeout : Duration) (policy : Reduction) (threshold : Float)
    (before after : List Op) :
    let d := (new id harvestTimeout scanTimeout policy threshold).undergoAll before
    let d' := d.undergoAll after
    d.lifecycle.rank ≤ d'.lifecycle.rank ∧
      (d.lifecycle ≠ .uninitialized → d.init = (d, some (.of "Device is already initialized"))) ∧
      (d.lifecycle ≠ .initialized → d.operate =
        (d, some (.of ("Device is " ++ d.lifecycle.name ++ ", expected " ++ Lifecycle.initialized.name)))) ∧
      d.close.lifecycle = .closed ∧
      (d.lifecycle = .closed →
        d'.lifecycle = .closed ∧ d'.engine.activeSubscriptions = 0 ∧ d'.fixed = d.fixed ∧
          d'.discovered = d.discovered ∧ d'.engine.pool = d.engine.pool ∧ ∀ n, d'.listen n = d'.toSite) := by
  intro d d'
  have h : Sound d := undergoAll_sound (new_sound id harvestTimeout scanTimeout policy threshold) before
  have h' : Sound d' := undergoAll_sound h after
  refine ⟨undergoAll_rank h after, init_refused, operate_refused, close_lifecycle d, fun hclosed => ?_⟩
  obtain ⟨hlife, hfixed, hdiscovered, hpool⟩ : Keeps d d' := undergoAll_keeps h hclosed after
  refine ⟨hlife, ?_, hfixed, hdiscovered, hpool, h'.listen_eq (Or.inr hlife)⟩
  rw [Engine.activeSubscriptions, (h'.still hlife).subscriptions]
  rfl

/-- the ledger knows the device from the start; it operates with one sensor, and is closed -/
def closedEarly : List Op :=
  let probe : Sensor := ⟨0, "probe", [.humidity]⟩
  [.besides (.link fun k => { k with ledger := k.ledger.putDevice spotDevice }),
    .besides (.sense 0 [] [] [.scripted probe [] false false true]), .carryOut .init,
    .besides (.task (.listener 0)), .besides (.task (.listener 1)), .besides (.task (.listener 2)),
    .carryOut (.enrol .fixed [probe] []), .carryOut .operate, .carryOut .close]

/-- after the close the ledger drops the device, and it logs in once more and is to be initialized and to operate -/
def usedOn : List Op :=
  [.besides (.link fun k => { k with ledger := k.ledger.removeDevice "dev-1" }), .besides (.task (.listener 1)),
    .carryOut (.login spotDevice), .carryOut .init, .carryOut .operate, .besides (.task (.handler 0)),
    .besides (.task .driveLoop)]

theorem lifecycle_forward_used_on :
    let d := (new "dev-1" ⟨500⟩ ⟨1000⟩ .mean 10.0).undergoAll closedEarly
    let d' := d.undergoAll usedOn
    d.lifecycle = .closed ∧ d.engine.pool.keys = ["probe"] ∧ d'.identity.isLoggedOn = true ∧ d'.lifecycle = .closed ∧
      d'.engine.pool = d.engine.pool ∧ d'.engine.activeSubscriptions = 0 ∧ ∀ n, d'.listen n = d'.toSite := by
  have hclosed : ((new "dev-1" ⟨500⟩ ⟨1000⟩ .mean 10.0).undergoAll closedEarly).lifecycle = .closed := by decide +kernel
  obtain ⟨hlife, hactive, -, -, hpool, hlisten⟩ :=
    (lifecycle_forward "dev-1" ⟨500⟩ ⟨1000⟩ .mean 10.0 closedEarly usedOn).2.2.2.2 hclosed
  exact ⟨hclosed, by decide +kernel, by decide +kernel, hlife, hpool, hactive, hlisten⟩

end SensorNode.Device
