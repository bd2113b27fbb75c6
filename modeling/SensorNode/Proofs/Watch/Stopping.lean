/-
What a stop of the watch puts an end to. It aborts the handler that waits for a login, if one has been stored, and then
the listeners that there are. Neither takes the lock, so both may come between two steps of a call. A handler that waits
is stored for the stop to find it, or a call has it in its hands (`Tended`); so once every call is through, a stop leaves
nothing behind that could spawn a listener (`Settled`), and without a new start none is alive ever after
(`stop_leaves_no_listener`). A call that has decided to spawn, or has a handler in its hands, is missed by a stop that
comes right then: its listeners live on (`spawn_after_stop`, `stop_misses_calls`).
-/
import SensorNode.Proofs.Device.Procedures
import SensorNode.Proofs.Watch.Gating

namespace SensorNode

namespace Gate

variable {g : Gate} {op : Op}

/-! ## Handlers that a stop can find -/

/-- a handler of the watch that still waits has been stored, or a call has it in its hands -/
def Tended (g : Gate) : Prop :=
  ∀ handler ∈ g.handlers, g.site.bus.isWaiting handler = true →
    g.site.watch.resumption = some handler ∨ some (.recheck handler) ∈ g.calls ∨ some (.keep handler) ∈ g.calls

/-- the other calls stay as they are while one goes on -/
theorem mem_calls_set {i : Nat} {call c : Watch.Call} {next : Option Watch.Call}
    (hi : g.calls[i]? = some (some call)) (hne : c ≠ call) (hc : some c ∈ g.calls) : some c ∈ g.calls.set i next := by
  obtain ⟨j, hj⟩ := List.mem_iff_getElem?.1 hc
  have hij : i ≠ j := by
    intro hij
    rw [← hij, hi] at hj
    exact hne (Option.some.inj (Option.some.inj hj)).symm
  exact List.mem_iff_getElem?.2 ⟨j, by rw [List.getElem?_set_ne hij, hj]⟩

/-- a call that has no handler in its hands goes on, and no handler is installed or forgotten -/
theorem Tended.set (h : Tended g) {i : Nat} {call : Watch.Call} (hi : g.calls[i]? = some (some call))
    (hcall : call.holdsLock = false) {s : Site} (hbus : s.bus = g.site.bus)
    (hresumption : s.watch.resumption = g.site.watch.resumption) (next : Option Watch.Call) :
    Tended ⟨s, g.calls.set i next, g.handlers⟩ := by
  intro handler hmem hwaits
  have hother : ∀ c : Watch.Call, c.holdsLock = true → some c ∈ g.calls → some c ∈ g.calls.set i next := by
    intro c hholds hc
    refine mem_calls_set hi (fun hsame => ?_) hc
    rw [hsame, hcall] at hholds
    cases hholds
  rcases h handler hmem (hbus ▸ hwaits) with hstored | hrecheck | hkeep
  · exact Or.inl (hresumption.trans hstored)
  · exact Or.inr (Or.inl (hother _ rfl hrecheck))
  · exact Or.inr (Or.inr (hother _ rfl hkeep))

theorem Tended.proceed (hg : Gated g) (h : Tended g) (i : Nat) : Tended (g.proceed i) := by
  unfold Gate.proceed
  split
  · rename_i call hi
    have hfits := hg.fits call (List.mem_of_getElem? hi)
    have hself : ∀ next, next ∈ g.calls.set i next := fun next =>
      List.mem_of_getElem? (List.getElem?_set_self (List.getElem?_eq_some_iff.1 hi).1)
    cases call with
    | start =>
      simp only [Site.stepCall]
      split_ifs
      all_goals exact h.set hi rfl rfl rfl _
    | install =>
      -- the first handler of the watch is in the hands of the call that has installed it
      intro handler hmem _
      obtain rfl : handler = g.site.bus.handlers.length := by
        have hmem : handler ∈ g.handlers ++ [g.site.bus.handlers.length] := hmem
        rw [hfits.2] at hmem
        exact List.mem_singleton.1 hmem
      exact Or.inr (Or.inl (hself _))
    | recheck waiting =>
      have hone : g.handlers = [waiting] := hfits.2
      simp only [Site.stepCall]
      split_ifs
      all_goals
        intro handler hmem hwaits
        obtain rfl : handler = waiting := List.mem_singleton.1 (hone ▸ hmem)
      · have hwaits : (g.site.bus.abort handler).isWaiting handler = true := hwaits
        rw [Bus.isWaiting_abort] at hwaits
        simp at hwaits
      · exact Or.inr (Or.inr (hself _))
    | keep waiting =>
      intro handler hmem _
      obtain rfl : handler = waiting := List.mem_singleton.1 (hfits.2 ▸ hmem)
      exact Or.inl rfl
    | resume =>
      simp only [Site.stepCall]
      split_ifs
      all_goals exact h.set hi rfl rfl rfl _
    | spawn => exact h.set hi rfl rfl rfl _
  · exact h

/-- a stored handler stays stored, unless the watch is stopped -/
theorem besides_resumption (s : Site) (hop : op ≠ .stopResumption) :
    (besides s op).watch.resumption = s.watch.resumption := by
  cases op with
  | stopResumption => exact absurd rfl hop
  | stopListeners =>
    obtain ⟨listeners, ledger, -, hstop⟩ := Device.stopListeners_eq s
    show s.stopListeners.watch.resumption = _
    rw [hstop]
  | listen n =>
    obtain ⟨⟨listeners, hwatch⟩, -⟩ := Device.listen_frame s n
    show (s.listen n).watch.resumption = _
    rw [hwatch]
  | _ => rfl

/-- what goes on besides the calls leaves no handler waiting that nobody could abort -/
theorem Tended.besides (hg : Gated g) (h : Tended g) (op : Op) :
    Tended { g with site := Gate.besides g.site op } := by
  intro handler hmem hwaits
  have hbefore := (besides_quiet g.site op).waits handler (hg.known handler hmem) hwaits
  by_cases hop : op = .stopResumption
  · subst hop
    refine (h handler hmem hbefore).imp_left fun hstored => ?_
    -- what was stored has been aborted
    have habort : (g.site.bus.abort handler).isWaiting handler = true := by
      have hsite : (Gate.besides g.site .stopResumption).bus = g.site.bus.abort handler := by
        show g.site.stopResumption.bus = _
        rw [Device.stopResumption_eq, hstored]
        rfl
      exact hsite ▸ hwaits
    rw [Bus.isWaiting_abort] at habort
    simp at habort
  · exact (h handler hmem hbefore).imp_left fun hstored => (besides_resumption g.site hop).trans hstored

theorem perform_tended (hg : Gated g) (h : Tended g) (op : Op) : Tended (g.perform op) := by
  cases op with
  | start =>
    intro handler hmem hwaits
    rcases h handler hmem hwaits with hstored | hrecheck | hkeep
    · exact Or.inl hstored
    · exact Or.inr (Or.inl (List.mem_append_left _ hrecheck))
    · exact Or.inr (Or.inr (List.mem_append_left _ hkeep))
  | proceed i => exact h.proceed hg i
  | poll n =>
    intro handler hmem hwaits
    have hcalls : g.calls ⊆ (g.perform (.poll n)).calls := by
      simp only [perform, poll]
      split_ifs
      · exact List.subset_append_left ..
      · exact List.Subset.refl _
    have hbefore : g.site.bus.isWaiting handler = true := by
      refine (Site.poll_quiet g.site n).waits handler (hg.known handler hmem) ?_
      rw [← poll_site]
      exact hwaits
    rcases h handler hmem hbefore with hstored | hrecheck | hkeep
    · exact Or.inl hstored
    · exact Or.inr (Or.inl (hcalls hrecheck))
    · exact Or.inr (Or.inr (hcalls hkeep))
  | _ => exact h.besides hg _

theorem performAll_tended (hg : Gated g) (h : Tended g) (ops : List Op) : Tended (g.performAll ops) := by
  induction ops generalizing g with
  | nil => exact h
  | cons op ops ih => exact ih (perform_gated hg op) (perform_tended hg h op)

/-! ## Nothing left to spawn -/

/-- every call is through, and no handler of the watch waits: without a new start there is nothing to spawn -/
structure Settled (g : Gate) : Prop where
  through : ∀ c ∈ g.calls, c = none
  deaf : ∀ handler ∈ g.handlers, g.site.bus.isWaiting handler = false

/-- once every call is through, aborting the handler that is stored settles all -/
theorem Tended.settled (hg : Gated g) (h : Tended g) (hthrough : ∀ c ∈ g.calls, c = none) :
    Settled (g.perform .stopResumption) where
  through := hthrough
  deaf handler hmem := by
    refine Bool.eq_false_iff.2 fun hwaits => ?_
    rcases perform_tended hg h .stopResumption handler hmem hwaits with hstored | hrecheck | hkeep
    · have hnone : (g.perform .stopResumption).site.watch.resumption = none := by
        show g.site.stopResumption.watch.resumption = none
        rw [Device.stopResumption_eq]
      rw [hnone] at hstored
      cases hstored
    · cases hthrough _ hrecheck
    · cases hthrough _ hkeep

/-- no call goes on, and no handler makes one -/
theorem Settled.perform_calls (h : Settled g) (hop : op ≠ .start) :
    (g.perform op).calls = g.calls ∧ (g.perform op).handlers = g.handlers ∧
      Site.Quiet g.site (g.perform op).site := by
  have hquiet := besides_quiet g.site op
  cases op with
  | start => exact absurd rfl hop
  | proceed i =>
    have hstays : g.perform (.proceed i) = g := by
      refine (proceed_cases g i).resolve_right ?_
      rintro ⟨call, hi, -⟩
      cases h.through _ (List.mem_of_getElem? hi)
    rw [hstays]
    exact ⟨rfl, rfl, Site.Quiet.refl _⟩
  | poll n =>
    have hquiet : Site.Quiet g.site (g.perform (.poll n)).site := by
      show Site.Quiet g.site (g.poll n).site
      rw [poll_site]
      exact Site.poll_quiet g.site n
    refine ⟨?_, rfl, hquiet⟩
    by_cases hmem : n ∈ g.handlers
    · refine poll_calls_of_none ((Bus.poll_cases g.site.bus n).elim And.left ?_)
      rintro ⟨event, -, hwaits, -⟩
      rw [h.deaf n hmem] at hwaits
      cases hwaits
    · exact if_neg fun hfire => hmem hfire.2
  | _ => exact ⟨rfl, rfl, hquiet⟩

theorem Settled.perform (hg : Gated g) (h : Settled g) (hop : op ≠ .start) : Settled (g.perform op) := by
  obtain ⟨hcalls, hhandlers, hquiet⟩ := h.perform_calls hop
  refine ⟨hcalls.symm ▸ h.through, fun handler hmem => Bool.eq_false_iff.2 fun hwaits => ?_⟩
  rw [hhandlers] at hmem
  have hbefore := hquiet.waits handler (hg.known handler hmem) hwaits
  rw [h.deaf handler hmem] at hbefore
  cases hbefore

theorem Settled.performAll (hg : Gated g) (h : Settled g) {ops : List Op} (hops : .start ∉ ops) :
    Settled (g.performAll ops) ∧ (g.performAll ops).site.topics = g.site.topics := by
  induction ops generalizing g with
  | nil => exact ⟨h, rfl⟩
  | cons op ops ih =>
    have hop : op ≠ .start := fun heq => hops (heq ▸ List.mem_cons_self)
    obtain ⟨hsettled, htopics⟩ := ih (perform_gated hg op) (h.perform hg hop)
      fun hmem => hops (List.mem_cons_of_mem op hmem)
    exact ⟨hsettled, htopics.trans (h.perform_calls hop).2.2.topics⟩

/-! ## Listeners that have ended -/

/-- no listener is alive -/
def Silent (s : Site) : Prop := ∀ l ∈ s.watch.listeners, l.stage = .ended

theorem stopListeners_silent (s : Site) : Silent s.stopListeners := by
  obtain ⟨listeners, ledger, hended, hstop⟩ := Device.stopListeners_eq s
  rw [hstop]
  exact hended

theorem Silent.besides {s : Site} (h : Silent s) (op : Op) : Silent (Gate.besides s op) := by
  cases op with
  | stopListeners => exact stopListeners_silent s
  | stopResumption =>
    show Silent s.stopResumption
    rw [Device.stopResumption_eq]
    exact h
  | listen n =>
    show Silent (s.listen n)
    rw [Device.listen_of_ended h]
    exact h
  | _ => exact h

/-- as long as all is settled, no listener comes to life -/
theorem Silent.perform (hsettled : Settled g) (h : Silent g.site) (hop : op ≠ .start) :
    Silent (g.perform op).site := by
  cases op with
  | start => exact absurd rfl hop
  | proceed i =>
    have hstays : g.proceed i = g := by
      refine (proceed_cases g i).resolve_right ?_
      rintro ⟨call, hi, -⟩
      cases hsettled.through _ (List.mem_of_getElem? hi)
    show Silent (g.proceed i).site
    rw [hstays]
    exact h
  | poll n =>
    show Silent (g.poll n).site
    rw [poll_site]
    exact h
  | _ => exact h.besides _

theorem Silent.performAll (hg : Gated g) (hsettled : Settled g) (h : Silent g.site) {ops : List Op}
    (hops : .start ∉ ops) : Silent (g.performAll ops).site := by
  induction ops generalizing g with
  | nil => exact h
  | cons op ops ih =>
    have hop : op ≠ .start := fun heq => hops (heq ▸ List.mem_cons_self)
    exact ih (perform_gated hg op) (hsettled.perform hg hop) (h.perform hsettled hop)
      fun hmem => hops (List.mem_cons_of_mem op hmem)

/-! ## Stops -/

/-- A stop that begins when every call is through, or that finds all settled when it comes to the listeners, leaves no
listener alive. None comes to life after it and none is spawned, whatever goes on, as long as the watch is not started
again; so no change in the ledger is taken in any more. -/
theorem stop_leaves_no_listener {s : Site} (hs : s.watch = .new) (before between more : List Op)
    (hstop : (∀ c ∈ ((new s).performAll before).calls, c = none) ∧ .start ∉ between ∨
      Settled ((((new s).performAll before).perform .stopResumption).performAll between))
    (hmore : .start ∉ more) :
    let halfway := (((new s).performAll before).perform .stopResumption).performAll between
    let g := (halfway.perform .stopListeners).performAll more
    (∀ l ∈ g.site.watch.listeners, l.isAlive = false) ∧ g.site.topics = halfway.site.topics ∧
      ∀ n, g.site.listen n = g.site := by
  intro halfway g
  have hbegun : Gated ((new s).performAll before) := performAll_gated (new_gated hs) before
  have hhalted : Gated (((new s).performAll before).perform .stopResumption) := perform_gated hbegun _
  have hhalfway : Gated halfway := performAll_gated hhalted between
  have hsettled : Settled halfway := by
    rcases hstop with ⟨hthrough, hbetween⟩ | hsettled
    · have hnew : Tended (new s) := fun handler hmem _ => absurd hmem List.not_mem_nil
      have htended := performAll_tended (new_gated hs) hnew before
      exact ((htended.settled hbegun hthrough).performAll hhalted hbetween).1
    · exact hsettled
  have hstopped : Settled (halfway.perform .stopListeners) := hsettled.perform hhalfway (by rintro ⟨⟩)
  have hgated : Gated (halfway.perform .stopListeners) := perform_gated hhalfway _
  have hsilent : Silent g.site := (stopListeners_silent halfway.site).performAll hgated hstopped hmore
  have htopics : g.site.topics = halfway.site.topics := calc
    g.site.topics = (halfway.perform .stopListeners).site.topics := (hstopped.performAll hgated hmore).2
    _ = halfway.site.topics := (Site.stopListeners_quiet halfway.site).topics
  refine ⟨fun l hl => ?_, htopics, Device.listen_of_ended hsilent⟩
  simp [Listener.isAlive, hsilent l hl]

/-- A start is about to spawn its listeners when the stop begins; they are there before the stop comes to them. -/
theorem stop_leaves_no_listener_spawned_between :
    let before := [Op.adopt spotDevice, .start, .proceed 0]
    let more := [Op.listen 0, .emit .loggedOn, .publish .assets (.of .removed (spotAsset "a1").toJson), .listen 0]
    let halfway := (((new bare).performAll before).perform .stopResumption).performAll [.proceed 0]
    let g := (halfway.perform .stopListeners).performAll more
    ((new bare).performAll before).calls = [some .spawn] ∧ halfway.site.topics = Watch.topics ∧
      (∀ l ∈ g.site.watch.listeners, l.isAlive = false) ∧ g.site.topics = Watch.topics ∧ g.site.listen 0 = g.site := by
  intro before more halfway g
  have hsettled : Settled halfway := ⟨by decide, by decide⟩
  obtain ⟨hsilent, htopics, hlisten⟩ := stop_leaves_no_listener (s := bare) rfl before [.proceed 0] more
    (Or.inr hsettled) (by simp [more])
  exact ⟨rfl, rfl, hsilent, htopics, hlisten 0⟩

/-- whatever a stop finds, a call that is about to spawn does so when it goes on -/
theorem spawn_after_stop {i : Nat} (hi : g.calls[i]? = some (some .spawn)) :
    ∃ listeners, (((g.perform .stopResumption).perform .stopListeners).perform (.proceed i)).site.watch.listeners =
      listeners ++ Watch.topics.map fun topic => ⟨topic, .spawned⟩ := by
  refine ⟨g.site.stopResumption.stopListeners.watch.listeners, ?_⟩
  have hi' : ((g.perform .stopResumption).perform .stopListeners).calls[i]? = some (some .spawn) := hi
  simp only [perform, Gate.proceed] at hi' ⊢
  rw [hi']
  rfl

/-- the listener to assets gets its stream and takes in an asset that is put -/
def takesIn : List Op := [.listen 0, .publish .assets ⟨.inserted, (spotAsset "a1").toJson⟩, .listen 0]

/-- a start of a watch whose device is not logged on, up to where it keeps its handler -/
def upToKeep : List Op := [.start, .proceed 0, .proceed 0, .proceed 0]

/-- a login, and the handler of the watch gets it -/
def loginSeen : List Op := [.adopt spotDevice, .emit .loggedOn, .poll 0]

/-- a stop between the two sections of a start -/
def stopInStart : List Op :=
  [.adopt spotDevice, .start, .proceed 0] ++ [.stopResumption, .stopListeners] ++ [.proceed 0]

/-- a stop between the two sections of a resumption -/
def stopInResumption : List Op :=
  upToKeep ++ [.proceed 0] ++ loginSeen ++ [.proceed 1] ++ [.stopResumption, .stopListeners] ++ [.proceed 1]

/-- a stop between the installing of a handler and the storing of it -/
def stopInKeeping : List Op :=
  upToKeep ++ [.stopResumption, .stopListeners] ++ [.proceed 0] ++ loginSeen ++ [.proceed 1, .proceed 1]

/-- every call is through, the three listeners live, and one has taken in what the ledger told it -/
def IsAtWork (g : Gate) : Prop :=
  (∀ c ∈ g.calls, c = none) ∧ g.site.watch.listeners.map Listener.isAlive = [true, true, true] ∧
    g.site.assets.contains "a1" = true

/-- Three stops that are over without a start after them, and the listeners are at work. The first run leaves the same
site as a stop before the start. -/
theorem stop_misses_calls :
    IsAtWork ((new bare).performAll (stopInStart ++ takesIn)) ∧
      IsAtWork ((new bare).performAll (stopInResumption ++ takesIn)) ∧
      IsAtWork ((new bare).performAll (stopInKeeping ++ takesIn)) ∧
      ((new bare).performAll stopInStart).site =
        ((new bare).performAll
          [.adopt spotDevice, .stopResumption, .stopListeners, .start, .proceed 0, .proceed 0]).site := by
  refine ⟨⟨by decide, by rfl, by rfl⟩, ⟨by decide, by rfl, by rfl⟩, ⟨by decide, by rfl, by rfl⟩, by rfl⟩

end Gate

end SensorNode
