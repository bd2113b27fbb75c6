/-
What the receivers of the event bus still hold. Every handler has a receiver of its own (`Sound`). The events that a
waiting handler has still to look at grow at one end with what is published and shrink at the other with its own polls
(`Awaits`), as long as it is not so far behind that some are lost to it (`lags`).
-/
import SensorNode.Proofs.Bus

namespace SensorNode.Bus

variable {b : Bus} {n handler : Nat}

/-! ## Receivers -/

/-- every event is counted, no receiver is ahead of the events, and each handler has a receiver of its own -/
structure Sound (b : Bus) : Prop where
  counted : b.events.length = b.sent
  behind : ∀ r ∈ b.receivers, r.position ≤ b.sent
  owned : ∀ (n : Nat) (h : Handler), b.handlers[n]? = some h → h.receiver < b.receivers.length
  distinct : ∀ (n n' : Nat) (h h' : Handler), b.handlers[n]? = some h → b.handlers[n']? = some h' →
    h.receiver = h'.receiver → n = n'

theorem new_sound : Sound new where
  counted := rfl
  behind r hr := by cases hr
  owned n h hn := by cases hn
  distinct n n' h h' hn := by cases hn

theorem Sound.emit (hb : Sound b) (event : DomainEvent) : Sound (b.emit event) where
  counted := congrArg (· + 1) hb.counted
  behind r hr := Nat.le_succ_of_le (hb.behind r hr)
  owned := hb.owned
  distinct := hb.distinct

theorem Sound.once (hb : Sound b) (kind : DomainEventKind) : Sound (b.once kind).2 := by
  have hcases : ∀ n h, (b.once kind).2.handlers[n]? = some h →
      b.handlers[n]? = some h ∨ n = b.handlers.length ∧ h.receiver = b.receivers.length := by
    intro n h hn
    rw [once_handlers] at hn
    rcases lt_trichotomy n b.handlers.length with hlt | rfl | hgt
    · exact Or.inl (by rwa [List.getElem?_append_left hlt] at hn)
    · rw [List.getElem?_append_right le_rfl, Nat.sub_self] at hn
      obtain rfl := Option.some.inj hn
      exact Or.inr ⟨rfl, rfl⟩
    · rw [List.getElem?_eq_none (by simpa using hgt)] at hn
      cases hn
  have hlength : (b.once kind).2.receivers.length = b.receivers.length + 1 := List.length_append
  refine ⟨hb.counted, fun r hr => ?_, fun n h hn => ?_, fun n n' h h' hn hn' he => ?_⟩
  · rcases List.mem_append.1 (show r ∈ b.receivers ++ [⟨b.sent, true⟩] from hr) with hr | hr
    · exact hb.behind r hr
    · rw [List.mem_singleton.1 hr]
      exact le_rfl
  · rcases hcases n h hn with hn | ⟨-, hr⟩
    · have := hb.owned n h hn
      omega
    · omega
  · rcases hcases n h hn with hn | ⟨rfl, hr⟩ <;> rcases hcases n' h' hn' with hn' | ⟨rfl, hr'⟩
    · exact hb.distinct n n' h h' hn hn' he
    · have := hb.owned n h hn
      omega
    · have := hb.owned n' h' hn'
      omega
    · rfl

/-- handlers keep their receivers, and receivers move within the events -/
theorem Sound.of_receivers {b' : Bus} (hb : Sound b) (hevents : b'.events = b.events) (hsent : b'.sent = b.sent)
    (hhandlers : b'.handlers.map Handler.receiver = b.handlers.map Handler.receiver)
    (hlength : b'.receivers.length = b.receivers.length) (hbehind : ∀ r ∈ b'.receivers, r.position ≤ b.sent) :
    Sound b' := by
  have hold : ∀ (n : Nat) (h : Handler), b'.handlers[n]? = some h →
      ∃ h', b.handlers[n]? = some h' ∧ h'.receiver = h.receiver := by
    intro n h hn
    have hmap := congrArg (·[n]?) hhandlers
    simp only [List.getElem?_map, hn, Option.map_some] at hmap
    obtain ⟨h', hn', hr⟩ := Option.map_eq_some_iff.1 hmap.symm
    exact ⟨h', hn', hr⟩
  refine ⟨by rw [hevents, hsent]; exact hb.counted, by rw [hsent]; exact hbehind, fun n h hn => ?_, ?_⟩
  · obtain ⟨h', hn', hr⟩ := hold n h hn
    rw [hlength, ← hr]
    exact hb.owned n h' hn'
  · intro n n' h h' hn hn' he
    obtain ⟨k, hk, hr⟩ := hold n h hn
    obtain ⟨k', hk', hr'⟩ := hold n' h' hn'
    exact hb.distinct n n' k k' hk hk' (hr.trans (he.trans hr'.symm))

/-- a change of status changes nothing else of a handler -/
theorem map_setStatus {α : Type} {f : Handler → α} (hf : ∀ h status, f { h with status } = f h) (b : Bus) (n : Nat)
    (status : Handler.Status) : (b.setStatus n status).handlers.map f = b.handlers.map f := by
  refine List.ext_getElem? fun k => ?_
  simp only [setStatus, List.getElem?_map, List.getElem?_modify]
  split_ifs <;> cases b.handlers[k]? <;> simp [hf]

theorem Sound.setStatus (hb : Sound b) (n : Nat) (status : Handler.Status) : Sound (b.setStatus n status) :=
  hb.of_receivers rfl rfl (map_setStatus (fun _ _ => rfl) b n status) rfl hb.behind

theorem Sound.drop (hb : Sound b) (receiver : Nat) : Sound (b.drop receiver) := by
  refine hb.of_receivers rfl rfl rfl (List.length_modify ..) fun r hr => ?_
  obtain ⟨k, hk⟩ := List.mem_iff_getElem?.1 hr
  simp only [Bus.drop, List.getElem?_modify] at hk
  obtain ⟨r', hr', rfl⟩ := Option.map_eq_some_iff.1 hk
  have := hb.behind r' (List.mem_of_getElem? hr')
  split_ifs <;> exact this

theorem Sound.abort (hb : Sound b) (n : Nat) : Sound (b.abort n) := by
  unfold Bus.abort
  split
  · exact (hb.setStatus n .aborted).drop _
  · exact hb

theorem Sound.next (hb : Sound b) (receiver : Nat) : Sound (b.next receiver).2 := by
  unfold Bus.next
  split
  · rename_i r hr
    refine hb.of_receivers rfl rfl rfl (List.length_set ..) fun r' hr' => ?_
    rcases List.mem_or_eq_of_mem_set hr' with hr' | rfl
    · exact hb.behind r' hr'
    · have hle := hb.behind r (List.mem_of_getElem? hr)
      by_cases hlost : b.lag r.position = 0
      · simp only [hlost, if_true]
        exact Nat.min_le_right _ _
      · simp only [hlost, if_false]
        unfold lag
        omega
  · exact hb

theorem Sound.poll (hb : Sound b) (n : Nat) : Sound (b.poll n).2 := by
  unfold Bus.poll
  split
  · rename_i kind receiver hh
    cases hf : (b.next receiver).1.filter fun e => decide (e.kind = kind) with
    | none => simpa only [hf] using hb.next receiver
    | some event => simpa only [hf] using ((hb.next receiver).setStatus n .done).drop receiver
  · exact hb

/-! ## What a handler waits for -/

def kind? (b : Bus) (n : Nat) : Option DomainEventKind := (b.handlers[n]?).map Handler.kind

def WaitsFor (b : Bus) (n : Nat) (kind : DomainEventKind) : Prop := b.isWaiting n = true ∧ b.kind? n = some kind

variable {kind : DomainEventKind}

theorem waitsFor_iff : b.WaitsFor n kind ↔ ∃ receiver, b.handlers[n]? = some ⟨kind, receiver, .waiting⟩ := by
  unfold WaitsFor kind?
  rw [isWaiting_iff]
  constructor
  · rintro ⟨⟨kind', receiver, hn⟩, hkind⟩
    rw [hn] at hkind
    obtain rfl : kind' = kind := Option.some.inj hkind
    exact ⟨receiver, hn⟩
  · rintro ⟨receiver, hn⟩
    exact ⟨⟨kind, receiver, hn⟩, by rw [hn]; rfl⟩

theorem waitsFor_congr {b' : Bus} (h : b'.handlers = b.handlers) : b'.WaitsFor n kind ↔ b.WaitsFor n kind := by
  rw [waitsFor_iff, waitsFor_iff, h]

theorem kind?_setStatus (m : Nat) (status : Handler.Status) : (b.setStatus m status).kind? n = b.kind? n := by
  unfold kind?
  rw [← List.getElem?_map, ← List.getElem?_map, map_setStatus (fun _ _ => rfl)]

theorem kind?_abort (m : Nat) : (b.abort m).kind? n = b.kind? n := by
  unfold abort
  split
  · exact kind?_setStatus m .aborted
  · rfl

theorem kind?_poll (m : Nat) : (b.poll m).2.kind? n = b.kind? n := by
  rcases poll_cases b m with ⟨-, h⟩ | ⟨event, -, -, h⟩
  · unfold kind?
    rw [h]
  · refine Eq.trans ?_ (kind?_setStatus m .done)
    unfold kind?
    rw [h]

/-- an aborted handler waits for nothing, and the others for what they did -/
theorem waitsFor_abort {m : Nat} : (b.abort m).WaitsFor n kind ↔ n ≠ m ∧ b.WaitsFor n kind := by
  unfold WaitsFor
  rw [isWaiting_abort, kind?_abort]
  simp [and_assoc]

theorem waitsFor_once {kind' : DomainEventKind} :
    (b.once kind').2.WaitsFor n kind ↔ b.WaitsFor n kind ∨ n = b.handlers.length ∧ kind = kind' := by
  rw [waitsFor_iff, waitsFor_iff, once_handlers]
  rcases lt_trichotomy n b.handlers.length with hlt | rfl | hgt
  · simp [List.getElem?_append_left hlt, hlt.ne]
  · simp [eq_comm]
  · simp [List.getElem?_eq_none (l := b.handlers ++ [⟨kind', b.receivers.length, .waiting⟩]) (by simpa using hgt), hgt.ne',
      List.getElem?_eq_none hgt.le]

/-- an event that a poll hands out is what the handler has waited for -/
theorem waitsFor_of_poll {event : DomainEvent} (h : (b.poll n).1 = some event) : b.WaitsFor n event.kind := by
  rw [waitsFor_iff]
  unfold poll at h
  split at h
  · rename_i kind receiver hn
    cases hf : (b.next receiver).1.filter fun e => decide (e.kind = kind) with
    | none => simp [hf] at h
    | some event' =>
      obtain rfl : event' = event := by simpa [hf] using h
      obtain rfl : event'.kind = kind := of_decide_eq_true (Option.filter_eq_some_iff.1 hf).2
      exact ⟨receiver, hn⟩
  · cases h

/-- who waits after a poll has waited before it, and is not the handler to which it has handed an event -/
theorem waitsFor_poll {m : Nat} :
    (b.poll m).2.WaitsFor n kind ↔ b.WaitsFor n kind ∧ ((b.poll m).1.isSome = true → n ≠ m) := by
  unfold WaitsFor
  rw [kind?_poll]
  rcases poll_cases b m with ⟨hnone, h⟩ | ⟨event, hsome, -, h⟩
  · rw [isWaiting_congr h, hnone]
    simp
  · rw [isWaiting_congr h, isWaiting_setStatus (by decide), hsome]
    simp only [Bool.and_eq_true, Bool.not_eq_true', decide_eq_false_iff_not, Option.isSome_some, forall_const]
    tauto

/-! ## What a handler has still to look at -/

/-- the handler waits for an event of this kind, and has still to look at these events, oldest first, if it loses none -/
def Awaits (b : Bus) (n : Nat) (kind : DomainEventKind) (ahead : List DomainEvent) : Prop :=
  ∃ receiver r, b.handlers[n]? = some ⟨kind, receiver, .waiting⟩ ∧ b.receivers[receiver]? = some r ∧
    r.position ≤ b.sent ∧ ahead = (b.events.take (b.sent - r.position)).reverse

/-- events are lost to the handler if it does not look at them in time -/
def lags (b : Bus) (n : Nat) : Bool :=
  match b.handlers[n]? with
  | some ⟨_, receiver, .waiting⟩ => (b.receivers[receiver]?).any fun r => b.lag r.position ≠ 0
  | _ => false

variable {ahead : List DomainEvent}

/-- who waits has something to look at, or nothing yet -/
theorem Sound.awaits (hb : Sound b) (h : b.WaitsFor n kind) : ∃ ahead, b.Awaits n kind ahead := by
  obtain ⟨receiver, hn⟩ := waitsFor_iff.1 h
  have hlt : receiver < b.receivers.length := hb.owned n _ hn
  refine ⟨_, receiver, b.receivers[receiver], hn, List.getElem?_eq_getElem hlt, ?_, rfl⟩
  exact hb.behind _ (List.getElem_mem hlt)

theorem Awaits.waitsFor (h : b.Awaits n kind ahead) : b.WaitsFor n kind := by
  obtain ⟨receiver, r, hn, -⟩ := h
  exact waitsFor_iff.2 ⟨receiver, hn⟩

theorem Awaits.emit (h : b.Awaits n kind ahead) (event : DomainEvent) :
    (b.emit event).Awaits n kind (ahead ++ [event]) := by
  obtain ⟨receiver, r, hn, hr, hle, rfl⟩ := h
  refine ⟨receiver, r, hn, hr, Nat.le_succ_of_le hle, ?_⟩
  show _ = ((event :: b.events).take (b.sent + 1 - r.position)).reverse
  rw [Nat.succ_sub hle, List.take_succ_cons, List.reverse_cons]

/-- someone publishes one event after the other -/
def emitAll (b : Bus) (events : List DomainEvent) : Bus := events.foldl emit b

/-- it keeps them on top of what it had, and counts them -/
theorem emitAll_eq (b : Bus) (events : List DomainEvent) :
    b.emitAll events = { b with events := events.reverse ++ b.events, sent := b.sent + events.length } := by
  induction events generalizing b with
  | nil => rfl
  | cons event events ih =>
    rw [emitAll, List.foldl_cons, ← emitAll, ih]
    simp only [emit, List.reverse_cons, List.append_assoc, List.singleton_append, List.length_cons, Nat.add_assoc,
      Nat.add_comm 1]

@[simp] theorem emitAll_handlers (b : Bus) (events : List DomainEvent) : (b.emitAll events).handlers = b.handlers := by
  induction events generalizing b with
  | nil => rfl
  | cons event events ih => exact ih (b.emit event)

theorem Sound.emitAll (hb : Sound b) (events : List DomainEvent) : Sound (b.emitAll events) := by
  induction events generalizing b with
  | nil => exact hb
  | cons event events ih => exact ih (hb.emit event)

theorem Awaits.emitAll (h : b.Awaits n kind ahead) (events : List DomainEvent) :
    (b.emitAll events).Awaits n kind (ahead ++ events) := by
  induction events generalizing b ahead with
  | nil => exact (List.append_nil ahead).symm ▸ h
  | cons event events ih =>
    rw [List.append_cons]
    exact ih (h.emit event)

/-- what happens to other handlers and their receivers is nothing to this one -/
theorem Awaits.of_ne {b' : Bus} (h : b.Awaits n kind ahead) (hevents : b'.events = b.events) (hsent : b'.sent = b.sent)
    (hhandler : b'.handlers[n]? = b.handlers[n]?)
    (hreceiver : ∀ h, b.handlers[n]? = some h → (b'.receivers[h.receiver]?).map Receiver.position =
      (b.receivers[h.receiver]?).map Receiver.position) : b'.Awaits n kind ahead := by
  obtain ⟨receiver, r, hn, hr, hle, rfl⟩ := h
  have hsame := hreceiver _ hn
  rw [hr, Option.map_some] at hsame
  obtain ⟨r', hr', hposition⟩ := Option.map_eq_some_iff.1 hsame
  refine ⟨receiver, r', hhandler.trans hn, hr', ?_, ?_⟩
  · rw [hposition, hsent]
    exact hle
  · rw [hposition, hsent, hevents]

theorem map_position_drop (b : Bus) (receiver k : Nat) :
    ((b.drop receiver).receivers[k]?).map Receiver.position = (b.receivers[k]?).map Receiver.position := by
  simp only [Bus.drop, List.getElem?_modify]
  split_ifs <;> cases b.receivers[k]? <;> rfl

theorem setStatus_getElem?_of_ne {m : Nat} (hne : m ≠ n) (status : Handler.Status) :
    (b.setStatus m status).handlers[n]? = b.handlers[n]? := by
  simp only [setStatus, List.getElem?_modify, if_neg hne]
  cases b.handlers[n]? <;> rfl

theorem Awaits.abort (h : b.Awaits n kind ahead) {m : Nat} (hne : m ≠ n) : (b.abort m).Awaits n kind ahead := by
  unfold Bus.abort
  split
  · exact h.of_ne rfl rfl (setStatus_getElem?_of_ne hne .aborted) fun h' _ => map_position_drop _ _ _
  · exact h

theorem next_receivers_of_ne {receiver k : Nat} (hne : receiver ≠ k) :
    (b.next receiver).2.receivers[k]? = b.receivers[k]? := by
  unfold Bus.next
  split
  · exact List.getElem?_set_ne hne
  · rfl

/-- a poll of another handler takes nothing from this one -/
theorem Awaits.poll_of_ne (hb : Sound b) (h : b.Awaits n kind ahead) {m : Nat} (hne : m ≠ n) :
    (b.poll m).2.Awaits n kind ahead := by
  unfold Bus.poll
  split
  · rename_i kind' receiver hm
    have hother : ∀ h' : Handler, b.handlers[n]? = some h' → receiver ≠ h'.receiver := fun h' hn he =>
      hne (hb.distinct m n _ h' hm hn he)
    have hnext : (b.next receiver).2.Awaits n kind ahead := by
      have hframe : (b.next receiver).2.events = b.events ∧ (b.next receiver).2.sent = b.sent := by
        unfold Bus.next
        split <;> exact ⟨rfl, rfl⟩
      refine h.of_ne hframe.1 hframe.2 (by rw [next_handlers]) fun h' hn => ?_
      rw [next_receivers_of_ne (hother h' hn)]
    cases hf : (b.next receiver).1.filter fun e => decide (e.kind = kind') with
    | none => simpa only [hf] using hnext
    | some event =>
      simp only [hf]
      exact hnext.of_ne rfl rfl (setStatus_getElem?_of_ne hne .done) fun h' _ => map_position_drop _ _ _
  · exact h

/-- what a receiver has still to give, once it has given one event more -/
theorem tail_reverse_take {l : List DomainEvent} {k : Nat} (hk : k ≤ l.length) :
    (l.take k).reverse.tail = (l.take (k - 1)).reverse := by
  rw [List.tail_reverse, List.dropLast_eq_take, List.length_take, List.take_take]
  congr 2
  omega

/-- a handler that has lost nothing looks at the first of the events it has still to look at -/
theorem Awaits.poll (hb : Sound b) (h : b.Awaits n kind ahead) (hlags : b.lags n = false) :
    (∃ event rest, ahead = event :: rest ∧ event.kind = kind ∧ (b.poll n).1 = some event) ∨
      ((∀ event ∈ ahead.head?, event.kind ≠ kind) ∧ (b.poll n).1 = none ∧ (b.poll n).2.Awaits n kind ahead.tail) := by
  obtain ⟨receiver, r, hn, hr, hle, rfl⟩ := h
  have hlag : b.lag r.position = 0 := by simpa [lags, hn, hr] using hlags
  have hunread : b.unread r.position = (b.events.take (b.sent - r.position)).reverse := by
    unfold unread
    rw [Nat.min_eq_left (by unfold lag at hlag; omega)]
  have hnext : b.next receiver = ((b.events.take (b.sent - r.position)).reverse.head?,
      { b with receivers := b.receivers.set receiver { r with position := min (r.position + 1) b.sent } }) := by
    simp only [Bus.next, hr, hlag, if_true, hunread]
  have hset : (b.receivers.set receiver { r with position := min (r.position + 1) b.sent })[receiver]? =
      some { r with position := min (r.position + 1) b.sent } :=
    List.getElem?_set_self (List.getElem?_eq_some_iff.1 hr).1
  cases hf : ((b.events.take (b.sent - r.position)).reverse.head?).filter fun e => decide (e.kind = kind) with
  | some event =>
    obtain ⟨hhead, hkind⟩ := Option.filter_eq_some_iff.1 hf
    obtain ⟨rest, hrest⟩ := List.head?_eq_some_iff.1 hhead
    exact Or.inl ⟨event, rest, hrest, of_decide_eq_true hkind, by simp only [Bus.poll, hn, hnext, hf]⟩
  | none =>
    have hpoll : b.poll n = (none,
        { b with receivers := b.receivers.set receiver { r with position := min (r.position + 1) b.sent } }) := by
      simp only [Bus.poll, hn, hnext, hf]
    refine Or.inr ⟨fun event he hkind => ?_, by rw [hpoll], ?_⟩
    · exact Option.filter_eq_none_iff.1 hf event he (decide_eq_true hkind)
    · rw [hpoll]
      refine ⟨receiver, _, hn, hset, Nat.min_le_right _ _, ?_⟩
      have hless : b.sent - min (r.position + 1) b.sent = b.sent - r.position - 1 := by omega
      rw [tail_reverse_take (hb.counted ▸ Nat.sub_le _ _)]
      simp only [hless]

/-- a waiting handler is ready as long as there is anything for it to look at -/
theorem Awaits.isReady (hb : Sound b) (h : b.Awaits n kind ahead) : b.handlerIsReady n = !ahead.isEmpty := by
  obtain ⟨receiver, r, hn, hr, hle, rfl⟩ := h
  have hlength : (b.events.take (b.sent - r.position)).length = b.sent - r.position := by
    rw [List.length_take, hb.counted]
    omega
  simp only [handlerIsReady, hn, hr, Option.map_some, Option.getD_some, List.isEmpty_reverse]
  cases htake : b.events.take (b.sent - r.position) with
  | nil =>
    rw [htake, List.length_nil] at hlength
    simp only [List.isEmpty_nil, Bool.not_true, decide_eq_false_iff_not]
    omega
  | cons event rest =>
    rw [htake, List.length_cons] at hlength
    simp only [List.isEmpty_cons, Bool.not_false, decide_eq_true_eq]
    omega

end SensorNode.Bus
