/-
A watch starts once. In any run of a `Gate` that begins with a watch nobody has started, whatever the order of calls,
logins, events, polls and stops:
- the listeners of the three topics are spawned at most once, and each topic is asked for at most once;
- the state only goes forward;
- of the handlers that the watch has installed at most one is alive;
- a start that sees a login at either of its looks is through after one more step, the watch runs with its listeners
  spawned, and no handler can spawn them again (`startup_gated`).

The argument is about the right to spawn. A start that finds the watch not started takes it together with the lock
(`Gated.lock`, `Gated.fits`); the handler may get it only from a call that has given the lock back, and whoever makes
the watch run has it alone (`Gated.notYet`, `Gated.once`).
-/
import SensorNode.Proofs.Watch.Run

namespace SensorNode

namespace Gate

variable {g : Gate}

/-- what a call that holds the lock can rely on -/
def Fits (g : Gate) : Watch.Call → Prop
  | .install => g.site.watch.state = .notStarted ∧ g.handlers = []
  | .recheck handler => g.site.watch.state = .notStarted ∧ g.handlers = [handler]
  | .keep handler => g.site.watch.state = .awaitingLogin ∧ g.handlers = [handler]
  | _ => True

/-- the handlers of the watch that are alive and may yet make it run: those that wait for a login, and those that have
got one and have not looked at the state since -/
def alive (g : Gate) : Nat := g.handlers.countP g.site.bus.isWaiting + g.calls.count (some .resume)

structure Gated (g : Gate) : Prop where
  /-- one call holds the lock, or none does -/
  lock : g.calls.countP (Option.any Watch.Call.holdsLock) = if g.site.watch.locked then 1 else 0
  fits : ∀ call, some call ∈ g.calls → g.Fits call
  fresh : g.site.watch.state = .notStarted → g.site.watch.locked = false → g.handlers = []
  single : g.handlers.length ≤ 1
  known : ∀ handler ∈ g.handlers, handler < g.site.bus.handlers.length
  live : g.alive ≤ g.handlers.length
  /-- no handler waits any more once the watch runs -/
  closed : g.site.watch.state = .running → ∀ handler ∈ g.handlers, g.site.bus.isWaiting handler = false
  notYet : g.site.watch.state ≠ .running → g.calls.count (some .spawn) = 0 ∧ g.site.topics = []
  once : g.site.watch.state = .running →
    g.calls.count (some .spawn) = 1 ∧ g.site.topics = [] ∨
      g.calls.count (some .spawn) = 0 ∧ g.site.topics = Watch.topics

theorem new_gated {s : Site} (hs : s.watch = .new) : Gated (new s) := by
  have hstate : (new s).site.watch.state = .notStarted := by show s.watch.state = _; rw [hs]; rfl
  have htopics : (new s).site.topics = [] := by show s.watch.listeners.map _ = _; rw [hs]; rfl
  refine ⟨?lock, fun _ h => absurd h List.not_mem_nil, fun _ _ => rfl, Nat.zero_le _,
    fun _ h => absurd h List.not_mem_nil, le_rfl, fun _ _ h => absurd h List.not_mem_nil, fun _ => ⟨rfl, htopics⟩,
    fun h => ?once⟩
  case lock => show 0 = if s.watch.locked = true then 1 else 0; rw [hs]; rfl
  case once => rw [hstate] at h; exact absurd h (by decide)

/-- calls that hold no lock rely on nothing -/
theorem fits_of_not_holdsLock {call : Watch.Call} (h : call.holdsLock = false) : g.Fits call := by
  cases call with
  | install | recheck | keep => cases h
  | _ => trivial

/-- If what the holder of the lock relies on holds, then so does what any call relies on. -/
theorem fits_of_lock (hlock : g.calls.countP (Option.any Watch.Call.holdsLock) = if g.site.watch.locked then 1 else 0)
    (holder : g.site.watch.locked = true → ∃ call, some call ∈ g.calls ∧ call.holdsLock = true ∧ g.Fits call) :
    ∀ call, some call ∈ g.calls → g.Fits call := by
  intro call hcall
  cases hl : call.holdsLock with
  | false => exact fits_of_not_holdsLock hl
  | true =>
    have hpos : 0 < g.calls.countP (Option.any Watch.Call.holdsLock) := List.countP_pos_iff.2 ⟨_, hcall, hl⟩
    have hlocked : g.site.watch.locked = true := by
      by_contra hnot
      rw [hlock, if_neg hnot] at hpos
      exact absurd hpos (by decide)
    obtain ⟨call', hcall', hl', hfits⟩ := holder hlocked
    -- two calls that hold the lock are the same
    rw [hlocked, if_pos rfl, List.countP_eq_length_filter] at hlock
    obtain ⟨c, hc⟩ := List.length_eq_one_iff.1 hlock
    have only : ∀ {c' : Watch.Call}, some c' ∈ g.calls → c'.holdsLock = true → some c' = c := fun hmem hholds =>
      List.mem_singleton.1 (hc ▸ List.mem_filter.2 ⟨hmem, hholds⟩)
    obtain rfl : call' = call := Option.some.inj ((only hcall' hl').trans (only hcall hl).symm)
    exact hfits

theorem Fits.of_eq {call : Watch.Call} (h : g.Fits call) (g' : Gate)
    (hstate : g'.site.watch.state = g.site.watch.state) (hhandlers : g'.handlers = g.handlers) : g'.Fits call := by
  cases call <;> simp only [Fits, hstate, hhandlers] at h ⊢ <;> exact h

/-! ## Steps that are of no call -/

theorem Gated.of_quiet (h : Gated g) {s : Site} (hq : Site.Quiet g.site s) : Gated { g with site := s } where
  lock := by rw [hq.locked]; exact h.lock
  fits call hcall := Fits.of_eq (h.fits call hcall) ⟨s, g.calls, g.handlers⟩ hq.state rfl
  fresh hstate hlocked := h.fresh (hq.state.symm.trans hstate) (hq.locked.symm.trans hlocked)
  single := h.single
  known handler hmem := lt_of_lt_of_le (h.known handler hmem) hq.length
  live := by
    refine le_trans (Nat.add_le_add_right ?_ _) h.live
    exact List.countP_mono_left fun handler hmem hw => hq.waits handler (h.known handler hmem) hw
  closed hstate handler hmem := by
    refine Bool.eq_false_iff.2 fun hw => ?_
    have := hq.waits handler (h.known handler hmem) hw
    rw [h.closed (hq.state.symm.trans hstate) handler hmem] at this
    exact absurd this (by decide)
  notYet hstate := by
    rw [hq.topics]
    exact h.notYet fun hr => hstate (hq.state.trans hr)
  once hstate := by
    rw [hq.topics]
    exact h.once (hq.state.symm.trans hstate)

/-- a call comes in; if it resumes the watch, the handler that makes it has stopped waiting -/
theorem Gated.call (h : Gated g) {call : Watch.Call} (hlock : call.holdsLock = false) (hspawn : call ≠ .spawn)
    (halive : Gate.alive { g with calls := g.calls ++ [some call] } ≤ g.handlers.length) :
    Gated { g with calls := g.calls ++ [some call] } where
  lock := by
    show (g.calls ++ [some call]).countP _ = _
    rw [List.countP_append, h.lock]
    simp [hlock]
  fits call' hcall' := by
    rcases List.mem_append.1 hcall' with hmem | hmem
    · exact Fits.of_eq (h.fits call' hmem) _ rfl rfl
    · obtain rfl := Option.some.inj (List.mem_singleton.1 hmem)
      exact fits_of_not_holdsLock hlock
  fresh := h.fresh
  single := h.single
  known := h.known
  live := halive
  closed := h.closed
  notYet hstate := by
    have hcount : (g.calls ++ [some call]).count (some .spawn) = g.calls.count (some .spawn) := by
      simp [List.count_append, hspawn]
    rw [hcount]
    exact h.notYet hstate
  once hstate := by
    have hcount : (g.calls ++ [some call]).count (some .spawn) = g.calls.count (some .spawn) := by
      simp [List.count_append, hspawn]
    rw [hcount]
    exact h.once hstate

theorem Gated.poll (h : Gated g) (handler : Nat) : Gated (g.poll handler) := by
  have hq := h.of_quiet (Site.poll_quiet g.site handler)
  unfold Gate.poll
  dsimp only
  split_ifs with hfire
  · obtain ⟨hevent, hmem⟩ := hfire
    refine hq.call rfl (by decide) ?_
    -- the only handler waited before, and does not now
    obtain hhandlers : g.handlers = [handler] := by
      have := h.single
      obtain ⟨h0, hh0⟩ := List.length_eq_one_iff.1 (le_antisymm this (List.length_pos_of_mem hmem))
      rw [hh0, List.mem_singleton] at hmem
      rw [hh0, hmem]
    have halive := h.live
    rcases Bus.poll_cases g.site.bus handler with ⟨hnone, -⟩ | ⟨event, -, hwaits, hb⟩
    · rw [hnone] at hevent; exact absurd hevent (by decide)
    · have hdone : (g.site.bus.poll handler).2.isWaiting handler = false := by
        rw [Bus.isWaiting_congr hb, Bus.isWaiting_setStatus (by decide)]
        simp
      simp only [Gate.alive, hhandlers, List.countP_singleton, hwaits, hdone, List.count_append, if_true,
        List.length_singleton] at halive ⊢
      simp
      omega
  · exact hq

/-! ## Steps of calls -/

section proceed

variable {i : Nat} {call : Watch.Call}

/-- a call that goes on is counted as what it does next, and no longer as what it did -/
theorem countP_set (hi : g.calls[i]? = some (some call)) (next : Option Watch.Call) (p : Option Watch.Call → Bool) :
    (g.calls.set i next).countP p + (if p (some call) then 1 else 0) =
      g.calls.countP p + (if p next then 1 else 0) := by
  obtain ⟨hlt, hget⟩ := List.getElem?_eq_some_iff.1 hi
  have hpos : (if p (some call) = true then 1 else 0) ≤ g.calls.countP p := by
    split_ifs with hp
    · exact List.countP_pos_iff.2 ⟨_, hget ▸ List.getElem_mem hlt, hp⟩
    · exact Nat.zero_le _
  rw [List.countP_set hlt, hget]
  omega

theorem count_set (hi : g.calls[i]? = some (some call)) (next c : Option Watch.Call) :
    (g.calls.set i next).count c + (if some call = c then 1 else 0) =
      g.calls.count c + (if next = c then 1 else 0) := by
  have := countP_set hi next (· == c)
  simpa [List.count] using this

/-- a call that waits for the lock -/
theorem Gated.same (h : Gated g) (hi : g.calls[i]? = some (some call)) :
    Gated { g with calls := g.calls.set i (some call) } := by
  rw [set_eq_self hi]
  exact h

theorem Gated.locked (h : Gated g) (hi : g.calls[i]? = some (some call)) (hholds : call.holdsLock = true) :
    g.site.watch.locked = call.holdsLock := by
  have hpos : 0 < g.calls.countP (Option.any Watch.Call.holdsLock) :=
    List.countP_pos_iff.2 ⟨_, List.mem_of_getElem? hi, hholds⟩
  rw [h.lock] at hpos
  rw [hholds]
  by_contra hnot
  rw [if_neg hnot] at hpos
  exact absurd hpos (by decide)

/-- a call that is through without having touched anything -/
theorem Gated.pass (h : Gated g) (hi : g.calls[i]? = some (some call)) (hlock : call.holdsLock = false)
    (hspawn : call ≠ .spawn) : Gated { g with calls := g.calls.set i none } := by
  have hholds := countP_set hi none (Option.any Watch.Call.holdsLock)
  have hspawns := count_set hi none (some .spawn)
  have hresumes := count_set hi none (some .resume)
  simp only [Option.any_some, hlock, Option.any_none, Option.some.injEq, hspawn, reduceCtorEq, if_false,
    Bool.false_eq_true, Nat.add_zero] at hholds hspawns hresumes
  refine ⟨?lock, ?fits, h.fresh, h.single, h.known, ?live, h.closed, ?notYet, ?once⟩
  case lock => exact hholds.trans h.lock
  case fits =>
    intro call' hcall'
    rcases List.mem_or_eq_of_mem_set hcall' with hmem | hmem
    · exact Fits.of_eq (h.fits call' hmem) _ rfl rfl
    · cases hmem
  case live =>
    have := h.live
    simp only [Gate.alive] at this ⊢
    omega
  case notYet =>
    intro hstate
    show (g.calls.set i none).count (some .spawn) = 0 ∧ _
    rw [hspawns]
    exact h.notYet hstate
  case once =>
    intro hstate
    show (g.calls.set i none).count (some .spawn) = 1 ∧ _ ∨ (g.calls.set i none).count (some .spawn) = 0 ∧ _
    rw [hspawns]
    exact h.once hstate

/-- The watch runs from now on: the call that has the right to spawn, because the lock is its own or nobody's, is about
to do it, and no handler waits any more. -/
theorem Gated.runs (h : Gated g) (hi : g.calls[i]? = some (some call)) (hstate : g.site.watch.state ≠ .running)
    (hlock : g.site.watch.locked = call.holdsLock) {s : Site} (hstate' : s.watch.state = .running)
    (hlocked' : s.watch.locked = false) (htopics : s.topics = g.site.topics)
    (hlength : g.site.bus.handlers.length ≤ s.bus.handlers.length)
    (hclosed : ∀ handler ∈ g.handlers, s.bus.isWaiting handler = false) :
    Gated ⟨s, g.calls.set i (some .spawn), g.handlers⟩ := by
  have hholds := countP_set hi (some .spawn) (Option.any Watch.Call.holdsLock)
  have hspawns := count_set hi (some .spawn) (some .spawn)
  have hresumes := count_set hi (some .spawn) (some .resume)
  obtain ⟨hnone, htopics0⟩ := h.notYet hstate
  have hfree : (g.calls.set i (some .spawn)).countP (Option.any Watch.Call.holdsLock) = 0 := by
    rw [h.lock, hlock] at hholds
    simp only [Option.any_some, Watch.Call.holdsLock, Bool.false_eq_true, if_false] at hholds
    omega
  refine ⟨?lock, fits_of_lock ?lock fun hl => ?holder, fun hs => ?fresh, h.single, ?known, ?live, fun _ => hclosed,
    fun hs => absurd hstate' hs, fun _ => Or.inl ⟨?_, htopics.trans htopics0⟩⟩
  case lock => rw [hlocked']; exact hfree
  case holder => rw [hlocked'] at hl; cases hl
  case fresh => rw [hstate'] at hs; cases hs
  case known => exact fun handler hmem => lt_of_lt_of_le (h.known handler hmem) hlength
  case live =>
    have hlive := h.live
    have hwait : g.handlers.countP s.bus.isWaiting = 0 :=
      List.countP_eq_zero.2 fun handler hmem => by rw [hclosed handler hmem]; decide
    simp only [reduceCtorEq, if_false, Option.some.injEq] at hresumes
    simp only [Gate.alive, hwait] at hlive ⊢
    omega
  · show (g.calls.set i (some .spawn)).count (some .spawn) = 1
    have hne : some call ≠ some .spawn := fun hc => by
      have : 0 < g.calls.count (some .spawn) := List.count_pos_iff.2 (hc ▸ List.mem_of_getElem? hi)
      omega
    rw [if_neg hne, if_pos rfl] at hspawns
    omega

/-- A call that has the lock, or takes it while nobody has it, goes on to what needs the lock. The watch does not run
yet, and handlers wait only if a call has installed them. -/
theorem Gated.holds (h : Gated g) (hi : g.calls[i]? = some (some call)) {next : Watch.Call} {s : Site}
    {handlers : List Nat} (hlock : g.site.watch.locked = call.holdsLock) (hnext : next.holdsLock = true)
    (hresume : call ≠ .resume)
    (hstate : g.site.watch.state ≠ .running) (hstate' : s.watch.state ≠ .running) (hlocked' : s.watch.locked = true)
    (htopics : s.topics = g.site.topics) (hfits : Fits ⟨s, g.calls.set i (some next), handlers⟩ next)
    (hsingle : handlers.length ≤ 1) (hknown : ∀ handler ∈ handlers, handler < s.bus.handlers.length)
    (hlive : handlers.countP s.bus.isWaiting + g.handlers.length ≤
      g.handlers.countP g.site.bus.isWaiting + handlers.length) :
    Gated ⟨s, g.calls.set i (some next), handlers⟩ := by
  have hholds := countP_set hi (some next) (Option.any Watch.Call.holdsLock)
  have hspawns := count_set hi (some next) (some .spawn)
  have hresumes := count_set hi (some next) (some .resume)
  have hone : (g.calls.set i (some next)).countP (Option.any Watch.Call.holdsLock) = 1 := by
    rw [h.lock, hlock] at hholds
    simp only [Option.any_some, hnext, if_true] at hholds
    omega
  have hmem : some next ∈ g.calls.set i (some next) :=
    List.mem_of_getElem? (List.getElem?_set_self (List.getElem?_eq_some_iff.1 hi).1)
  have hne : next ≠ .spawn ∧ next ≠ .resume := by
    constructor <;> (rintro rfl; cases hnext)
  refine ⟨?lock, fits_of_lock ?lock fun _ => ⟨next, hmem, hnext, hfits⟩, fun _ hl => ?fresh, hsingle, hknown, ?live,
    fun hs => absurd hs hstate', fun _ => ⟨?_, htopics.trans (h.notYet hstate).2⟩, fun hs => absurd hs hstate'⟩
  case lock => rw [hlocked']; exact hone
  case fresh => rw [hlocked'] at hl; cases hl
  case live =>
    have hold := h.live
    simp only [Option.some.injEq, hne.2, hresume, if_false, Nat.add_zero] at hresumes
    simp only [Gate.alive, hresumes] at hold ⊢
    omega
  · show (g.calls.set i (some next)).count (some .spawn) = 0
    have hnone := (h.notYet hstate).1
    simp only [Option.some.injEq, hne.1, if_false] at hspawns
    omega

/-- A call gives the lock back; the watch waits for a login. -/
theorem Gated.gives (h : Gated g) {handler : Nat} (hi : g.calls[i]? = some (some (.keep handler)))
    (hstate : g.site.watch.state = .awaitingLogin) :
    Gated { g with
      site := g.site.setWatch { g.site.watch with resumption := some handler, locked := false }
      calls := g.calls.set i none } := by
  have hholds := countP_set hi none (Option.any Watch.Call.holdsLock)
  have hspawns := count_set hi none (some .spawn)
  have hresumes := count_set hi none (some .resume)
  rw [h.lock, h.locked hi rfl] at hholds
  simp only [Option.any_some, Option.any_none, Watch.Call.holdsLock, Option.some.injEq, reduceCtorEq, if_false, if_true,
    Bool.false_eq_true, Nat.add_zero] at hholds hspawns hresumes
  have hfree : (g.calls.set i none).countP (Option.any Watch.Call.holdsLock) = 0 := by omega
  have hrunning : g.site.watch.state ≠ .running := by rw [hstate]; decide
  refine ⟨hfree, fits_of_lock hfree (fun hl => by cases hl), fun hs => ?_, h.single, h.known, ?live,
    fun hs => absurd hs hrunning,
    fun _ => ⟨hspawns.trans (h.notYet hrunning).1, (h.notYet hrunning).2⟩, fun hs => absurd hs hrunning⟩
  case live =>
    have := h.live
    simp only [Gate.alive] at this ⊢
    show g.handlers.countP g.site.bus.isWaiting + _ ≤ _
    omega
  · exact absurd (hstate.symm.trans hs) (by decide)

/-- a call does what it has the right to: the listeners are spawned, for the first time -/
theorem Gated.spawns (h : Gated g) (hi : g.calls[i]? = some (some .spawn)) :
    Gated { g with site := (g.site.stepCall .spawn).1, calls := g.calls.set i none } := by
  have hholds := countP_set hi none (Option.any Watch.Call.holdsLock)
  have hspawns := count_set hi none (some .spawn)
  have hresumes := count_set hi none (some .resume)
  simp only [Option.any_some, Option.any_none, Watch.Call.holdsLock, Option.some.injEq, reduceCtorEq, if_false, if_true,
    Bool.false_eq_true, Nat.add_zero] at hholds hspawns hresumes
  have hpos : 0 < g.calls.count (some .spawn) := List.count_pos_iff.2 (List.mem_of_getElem? hi)
  have hstate : g.site.watch.state = .running := by
    by_contra hnot
    have := (h.notYet hnot).1
    omega
  obtain ⟨hcount, htopics⟩ : g.calls.count (some .spawn) = 1 ∧ g.site.topics = [] := by
    rcases h.once hstate with hs | ⟨hzero, -⟩
    · exact hs
    · omega
  refine ⟨hholds.trans h.lock, ?fits, h.fresh, h.single, h.known, ?live, h.closed, fun hs => absurd hstate hs,
    fun _ => Or.inr ⟨?_, ?_⟩⟩
  case fits =>
    intro call hcall
    rcases List.mem_or_eq_of_mem_set hcall with hmem | hmem
    · exact Fits.of_eq (h.fits call hmem) _ rfl rfl
    · cases hmem
  case live =>
    have := h.live
    simp only [Gate.alive] at this ⊢
    show g.handlers.countP g.site.bus.isWaiting + _ ≤ _
    omega
  · show (g.calls.set i none).count (some .spawn) = 0
    omega
  · show (g.site.watch.listeners ++ _).map Listener.topic = _
    rw [List.map_append, show g.site.watch.listeners.map Listener.topic = [] from htopics]
    rfl

theorem Gated.proceed (h : Gated g) (i : Nat) : Gated (g.proceed i) := by
  unfold Gate.proceed
  split
  · rename_i call hi
    have hcall := h.fits call (List.mem_of_getElem? hi)
    cases call with
    | start =>
      simp only [Site.stepCall]
      split_ifs with hlocked hstate hon
      · exact h.same hi
      · exact h.pass hi rfl (by decide)
      · -- the first look sees a login
        have hlocked := Bool.eq_false_iff.2 hlocked
        have hstate := not_not.1 hstate
        refine h.runs hi (by rw [hstate]; decide) hlocked rfl hlocked rfl le_rfl ?_
        rw [h.fresh hstate hlocked]
        exact fun _ hmem => absurd hmem List.not_mem_nil
      · have hlocked := Bool.eq_false_iff.2 hlocked
        have hstate := not_not.1 hstate
        refine h.holds hi hlocked rfl (by decide) ?_ ?_ rfl rfl ⟨hstate, h.fresh hstate hlocked⟩ h.single h.known
          le_rfl
        · rw [hstate]; decide
        · show g.site.watch.state ≠ _; rw [hstate]; decide
    | install =>
      obtain ⟨hstate, hnone⟩ := hcall
      simp only [Site.stepCall, note, hnone, List.nil_append]
      refine h.holds hi (h.locked hi rfl) rfl (by decide) ?_ ?_ (h.locked hi rfl) rfl ⟨hstate, rfl⟩ le_rfl ?_ ?_
      · rw [hstate]; decide
      · show g.site.watch.state ≠ _; rw [hstate]; decide
      · intro handler hmem
        rw [List.mem_singleton.1 hmem, Bus.once_handlers, Bus.once_fst]
        simp
      · rw [hnone]
        exact List.countP_le_length.trans (Nat.le_add_left _ _)
    | recheck handler =>
      obtain ⟨hstate, hone⟩ := hcall
      simp only [Site.stepCall]
      split_ifs with hon
      · -- a login has come since the first look, and the handler may have got it or not
        refine h.runs hi (by rw [hstate]; decide) (h.locked hi rfl) rfl rfl rfl (by simp) ?_
        intro handler' hmem
        rw [hone, List.mem_singleton] at hmem
        rw [hmem, Bus.isWaiting_abort]
        simp
      · refine h.holds hi (h.locked hi rfl) rfl (by rintro ⟨⟩) ?_ (by rintro ⟨⟩) (h.locked hi rfl) rfl ⟨rfl, hone⟩
          h.single h.known le_rfl
        rw [hstate]; decide
    | keep handler =>
      exact h.gives hi hcall.1
    | resume =>
      simp only [Site.stepCall]
      split_ifs with hlocked hstate
      · exact h.same hi
      · have hlocked := Bool.eq_false_iff.2 hlocked
        refine h.runs hi (by rw [hstate]; decide) hlocked rfl hlocked rfl le_rfl ?_
        -- this call is that of the only handler
        have hlive := h.live
        have hsingle := h.single
        have hpos : 0 < g.calls.count (some .resume) := List.count_pos_iff.2 (List.mem_of_getElem? hi)
        have hnone : g.handlers.countP g.site.bus.isWaiting = 0 := by
          unfold Gate.alive at hlive
          omega
        exact fun handler hmem => Bool.eq_false_iff.2 (List.countP_eq_zero.1 hnone handler hmem)
      · exact h.pass hi rfl (by decide)
    | spawn => exact h.spawns hi
  · exact h

end proceed

theorem perform_gated (h : Gated g) (op : Op) : Gated (g.perform op) := by
  cases op with
  | start =>
    refine h.call rfl (by decide) ?_
    have := h.live
    simp only [Gate.alive, List.count_append] at this ⊢
    exact this
  | proceed i => exact h.proceed i
  | poll handler => exact h.poll handler
  | _ => exact h.of_quiet (besides_quiet g.site _)

theorem performAll_gated (h : Gated g) (ops : List Op) : Gated (g.performAll ops) := by
  induction ops generalizing g with
  | nil => exact h
  | cons op ops ih => exact ih (perform_gated h op)

/-! ## What only grows -/

/-- how often a topic was asked for -/
def asked (g : Gate) (topic : Topic) : Nat := g.site.link.ledger.subscribeCalls topic

/-- how many listeners have asked for a topic -/
def askers (g : Gate) (topic : Topic) : Nat := g.site.watch.listeners.countP (Listener.hasAsked topic)

structure Onward (g g' : Gate) : Prop where
  rank : g.site.watch.state.rank ≤ g'.site.watch.state.rank
  topics : g.site.topics <+: g'.site.topics
  asked : ∀ topic, g'.asked topic + g.askers topic ≤ g.asked topic + g'.askers topic
  through : ∀ i : Nat, g.calls[i]? = some none → g'.calls[i]? = some none

variable {g' g'' : Gate}

theorem Onward.refl (g : Gate) : Onward g g := ⟨le_rfl, List.prefix_rfl, fun _ => le_rfl, fun _ h => h⟩

theorem Onward.trans (h : Onward g g') (h' : Onward g' g'') : Onward g g'' where
  rank := h.rank.trans h'.rank
  topics := h.topics.trans h'.topics
  asked topic := by
    have := h.asked topic
    have := h'.asked topic
    omega
  through i hi := h'.through i (h.through i hi)

theorem Onward.of_quiet {s : Site} (hq : Site.Quiet g.site s) (calls : List (Option Watch.Call)) (handlers : List Nat) :
    Onward g ⟨s, g.calls ++ calls, handlers⟩ where
  rank := by rw [hq.state]
  topics := by rw [hq.topics]
  asked topic := by
    have := hq.asked topic
    unfold Gate.asked Gate.askers
    rw [Ledger.subscribeCalls_eq, Ledger.subscribeCalls_eq]
    exact this
  through i hi := by rw [List.getElem?_append_left (List.getElem?_eq_some_iff.1 hi).1, hi]

theorem perform_onward (h : Gated g) (op : Op) : Onward g (g.perform op) := by
  have quiet : ∀ {s : Site}, Site.Quiet g.site s → Onward g { g with site := s } := fun hq => by
    simpa using Onward.of_quiet hq [] g.handlers
  cases op with
  | start => exact Onward.of_quiet (Site.Quiet.refl g.site) [some .start] g.handlers
  | poll handler =>
    have hq := Site.poll_quiet g.site handler
    simp only [perform, poll]
    split_ifs
    · exact Onward.of_quiet hq [some .resume] g.handlers
    · exact quiet hq
  | proceed i =>
    simp only [perform, Gate.proceed]
    split
    · rename_i call hi
      have hcall := h.fits call (List.mem_of_getElem? hi)
      have through : ∀ next (j : Nat), g.calls[j]? = some none → (g.calls.set i next)[j]? = some none := by
        intro next j hj
        have hne : i ≠ j := by rintro rfl; rw [hi] at hj; cases hj
        rw [List.getElem?_set_ne hne, hj]
      cases call with
      | start =>
        simp only [Site.stepCall]
        split_ifs with hlocked hstate hon
        · exact ⟨le_rfl, List.prefix_rfl, fun _ => le_rfl, through _⟩
        · exact ⟨le_rfl, List.prefix_rfl, fun _ => le_rfl, through _⟩
        · refine ⟨?_, List.prefix_rfl, fun _ => le_rfl, through _⟩
          rw [not_not.1 hstate]; exact Nat.zero_le _
        · exact ⟨le_rfl, List.prefix_rfl, fun _ => le_rfl, through _⟩
      | install => exact ⟨le_rfl, List.prefix_rfl, fun _ => le_rfl, through _⟩
      | recheck handler =>
        simp only [Site.stepCall]
        split_ifs
        all_goals
          refine ⟨?_, List.prefix_rfl, fun _ => le_rfl, through _⟩
          rw [hcall.1]; exact Nat.zero_le _
      | keep handler => exact ⟨le_rfl, List.prefix_rfl, fun _ => le_rfl, through _⟩
      | resume =>
        simp only [Site.stepCall]
        split_ifs with hlocked hstate
        · exact ⟨le_rfl, List.prefix_rfl, fun _ => le_rfl, through _⟩
        · refine ⟨?_, List.prefix_rfl, fun _ => le_rfl, through _⟩
          rw [hstate]; exact Nat.le_succ 1
        · exact ⟨le_rfl, List.prefix_rfl, fun _ => le_rfl, through _⟩
      | spawn =>
        refine ⟨le_rfl, ?_, fun topic => ?_, through _⟩
        · refine ⟨Watch.topics, ?_⟩
          show _ = (g.site.watch.listeners ++ _).map Listener.topic
          rw [List.map_append]
          rfl
        · show _ + g.askers topic ≤ _ + (g.site.watch.listeners ++ _).countP (Listener.hasAsked topic)
          rw [List.countP_append]
          exact Nat.add_le_add_left (Nat.le_add_right _ _) _
    · exact Onward.refl g
  | _ => exact quiet (besides_quiet g.site _)

theorem performAll_onward (h : Gated g) (ops : List Op) : Onward g (g.performAll ops) := by
  induction ops generalizing g with
  | nil => exact Onward.refl g
  | cons op ops ih => exact (perform_onward h op).trans (ih (perform_gated h op))

/-! ## Starts that see a login -/

/-- This call is about to look at the identity, for the first time while the watch is not started or for the second
time, and the device is logged on. -/
def Sees (g : Gate) (i : Nat) : Prop :=
  g.site.identity.isLoggedOn = true ∧
    (g.calls[i]? = some (some .start) ∧ g.site.watch.state = .notStarted ∧ g.site.watch.locked = false ∨
      ∃ handler, g.calls[i]? = some (some (.recheck handler)))

theorem Onward.running (h : Onward g g') (hstate : g.site.watch.state = .running) : g'.site.watch.state = .running := by
  have hrank := h.rank
  rw [hstate] at hrank
  cases hs : g'.site.watch.state with
  | running => rfl
  | notStarted | awaitingLogin => rw [hs] at hrank; exact absurd hrank (by decide)

theorem Gated.topics_cases (h : Gated g) : g.site.topics = [] ∨ g.site.topics = Watch.topics := by
  by_cases hstate : g.site.watch.state = .running
  · exact (h.once hstate).imp And.right And.right
  · exact Or.inl (h.notYet hstate).2

/-- listeners that have been spawned are not spawned again -/
theorem Onward.spawned (h : Onward g g') (hg' : Gated g') (htopics : g.site.topics = Watch.topics) :
    g'.site.topics = Watch.topics := by
  rcases hg'.topics_cases with hnil | hall
  · have hprefix := h.topics
    rw [hnil, htopics] at hprefix
    exact absurd (List.prefix_nil.1 hprefix) (by decide)
  · exact hall

/-- nobody holds the lock of a watch that runs -/
theorem Gated.unlocked (h : Gated g) (hstate : g.site.watch.state = .running) : g.site.watch.locked = false := by
  refine Bool.eq_false_iff.2 fun hlocked => ?_
  have hone := h.lock
  rw [hlocked, if_pos rfl] at hone
  obtain ⟨c, hc, hholds⟩ := List.countP_pos_iff.1 (by omega : 0 < g.calls.countP (Option.any Watch.Call.holdsLock))
  cases c with
  | none => cases hholds
  | some call =>
    have hfits := h.fits call hc
    cases call with
    | install | recheck | keep => exact absurd (hstate.symm.trans hfits.1) (by decide)
    | _ => cases hholds

/-- a handler that is still at work on a login when the watch runs is through at its next step, and changes nothing -/
theorem Gated.resume_idle (h : Gated g) (hstate : g.site.watch.state = .running) {i : Nat}
    (hi : g.calls[i]? = some (some .resume)) :
    g.perform (.proceed i) = { g with calls := g.calls.set i none } := by
  simp only [perform, Gate.proceed, hi, Site.stepCall, h.unlocked hstate, hstate]
  rfl

/-- the call that sees the login makes the watch run, and spawns the listeners next -/
theorem Sees.runs {i : Nat} (h : g.Sees i) :
    (g.perform (.proceed i)).site.watch.state = .running ∧
      (g.perform (.proceed i)).calls[i]? = some (some .spawn) := by
  obtain ⟨call, hi, hstate, hnext⟩ : ∃ call, g.calls[i]? = some (some call) ∧
      (g.site.stepCall call).1.watch.state = .running ∧ (g.site.stepCall call).2 = some .spawn := by
    obtain ⟨hon, ⟨hi, hstate, hlocked⟩ | ⟨handler, hi⟩⟩ := h
    · refine ⟨_, hi, ?_⟩
      simp [Site.stepCall, hlocked, hstate, hon, Site.setWatch]
    · refine ⟨_, hi, ?_⟩
      simp [Site.stepCall, hon]
  simp only [perform, Gate.proceed, hi, hstate, hnext, true_and]
  exact List.getElem?_set_self (List.getElem?_eq_some_iff.1 hi).1

/-- a call stays where it is while others go on -/
theorem perform_calls_of_ne {i : Nat} {c : Option Watch.Call} (hi : g.calls[i]? = some c) {op : Op}
    (hop : op ≠ .proceed i) : (g.perform op).calls[i]? = some c := by
  have append : ∀ calls, (g.calls ++ calls)[i]? = some c := fun calls => by
    rw [List.getElem?_append_left (List.getElem?_eq_some_iff.1 hi).1, hi]
  cases op with
  | start => exact append _
  | poll handler =>
    simp only [perform, poll]
    split_ifs
    · exact append _
    · exact hi
  | proceed j =>
    have hne : j ≠ i := fun hji => hop (hji ▸ rfl)
    simp only [perform, Gate.proceed]
    split
    · rw [List.getElem?_set_ne hne, hi]
    · exact hi
  | _ => exact hi

/-- the call that is to spawn the listeners does so when it goes on, whatever happens before and after -/
theorem performAll_spawns (h : Gated g) {i : Nat} (hi : g.calls[i]? = some (some .spawn)) (ops : List Op)
    (hops : .proceed i ∈ ops) :
    (g.performAll ops).calls[i]? = some none ∧ (g.performAll ops).site.topics = Watch.topics := by
  induction ops generalizing g with
  | nil => exact absurd hops List.not_mem_nil
  | cons op ops ih =>
    have hg := perform_gated h op
    by_cases hop : op = .proceed i
    · subst hop
      have hstep : g.perform (.proceed i) =
          { g with site := (g.site.stepCall .spawn).1, calls := g.calls.set i none } := by
        simp only [perform, Gate.proceed, hi]
        rfl
      have hlater := performAll_onward hg ops
      refine ⟨hlater.through i ?_, hlater.spawned (performAll_gated hg ops) ?_⟩
      · rw [hstep]
        exact List.getElem?_set_self (List.getElem?_eq_some_iff.1 hi).1
      · refine hg.topics_cases.resolve_left fun hnil => ?_
        rw [hstep] at hnil
        have : (g.site.watch.listeners ++ _).map Listener.topic = [] := hnil
        simp at this
    · refine ih hg (perform_calls_of_ne hi hop) ?_
      exact (List.mem_cons.1 hops).resolve_left fun heq => hop heq.symm

/-- **A watch starts once.** In a run that begins with a watch nobody has started, the listeners of the three topics are
spawned at most once and no topic is asked for more than once, the state only goes forward, and no second handler is
ever installed, so that at most one is alive. A start that sees a login makes the watch run for good; it spawns the
listeners at its next step, with which it is through, and from then on no handler waits, and one that has got its event
already changes nothing. -/
theorem startup_gated {s : Site} (hs : s.watch = .new) (ops : List Op) :
    let g := (new s).performAll ops
    (g.site.topics = [] ∨ g.site.topics = Watch.topics) ∧
    (∀ topic, g.asked topic ≤ (new s).asked topic + 1) ∧
    (∀ more, g.site.watch.state.rank ≤ (g.performAll more).site.watch.state.rank) ∧
    (g.alive ≤ g.handlers.length ∧ g.handlers.length ≤ 1) ∧
    ∀ i, g.Sees i → ∀ more,
      let g' := (g.perform (.proceed i)).performAll more
      g'.site.watch.state = .running ∧
      (.proceed i ∈ more → g'.calls[i]? = some none ∧ g'.site.topics = Watch.topics) ∧
      (∀ handler ∈ g'.handlers, g'.site.bus.isWaiting handler = false) ∧
      ∀ j, g'.calls[j]? = some (some .resume) →
        g'.perform (.proceed j) = { g' with calls := g'.calls.set j none } := by
  intro g
  have hg : Gated g := performAll_gated (new_gated hs) ops
  refine ⟨hg.topics_cases, fun topic => ?asked, fun more => (performAll_onward hg more).rank,
    ⟨hg.live, hg.single⟩, fun i hsees more => ?sees⟩
  case asked =>
    have hasked := (performAll_onward (new_gated hs) ops).asked topic
    have hle : g.askers topic ≤ g.site.topics.count topic := by
      unfold askers Site.topics List.count
      rw [List.countP_map]
      refine List.countP_mono_left fun l _ hl => ?_
      simp only [Listener.hasAsked, Bool.and_eq_true, decide_eq_true_eq] at hl
      simpa using hl.1
    have hone : g.site.topics.count topic ≤ 1 := by
      rcases hg.topics_cases with h | h <;> rw [h]
      · exact Nat.zero_le _
      · cases topic <;> decide
    have : g.asked topic + (new s).askers topic ≤ (new s).asked topic + g.askers topic := hasked
    omega
  case sees =>
    intro g'
    obtain ⟨hrunning, hspawn⟩ := hsees.runs
    have hstep := perform_gated hg (.proceed i)
    have hg' : Gated g' := performAll_gated hstep more
    have hrunning' : g'.site.watch.state = .running := (performAll_onward hstep more).running hrunning
    exact ⟨hrunning', performAll_spawns hstep hspawn more, hg'.closed hrunning',
      fun j hj => hg'.resume_idle hrunning' hj⟩

/-- a site with nothing in it -/
def bare : Site := .new "dev-1" ⟨1000⟩ .median 100.0

/-- A start finds the device logged off and installs a handler; then the device logs in, and the handler gets the event
while the start still holds the lock. -/
def loginBetween : List Op :=
  [.start, .proceed 0, .proceed 0, .adopt ⟨"dev-1", "", "", ⟨0.0, 0.0⟩, []⟩, .emit .loggedOn, .poll 0]

/-- A login between the two looks of a start, whose handler has got the event already: the watch runs, its listeners are
spawned once, and the handler changes nothing. -/
theorem startup_gated_login_between :
    let g := ((new bare).performAll loginBetween |>.perform (.proceed 0)).performAll
      [.proceed 1, .start, .proceed 0, .proceed 2]
    g.site.watch.state = .running ∧ g.site.topics = Watch.topics ∧ g.calls = [none, none, none] ∧
      g.site.bus.isWaiting 0 = false := by
  have hsees : ((new bare).performAll loginBetween).Sees 0 := ⟨rfl, Or.inr ⟨0, rfl⟩⟩
  obtain ⟨-, -, -, -, h⟩ := startup_gated (s := bare) rfl loginBetween
  obtain ⟨hrunning, hspawned, hwaits, -⟩ := h 0 hsees [.proceed 1, .start, .proceed 0, .proceed 2]
  exact ⟨hrunning, (hspawned (by simp)).2, rfl, hwaits 0 (by decide)⟩

end Gate

end SensorNode
