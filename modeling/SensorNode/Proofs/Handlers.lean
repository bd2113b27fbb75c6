/-
What a handler for one event is handed. It waits in a receiver of its own from the moment at which it is installed
(`once_awaits`), and looks at what was published since, oldest first. The bus keeps so many events and no more: who looks
too late is told of a loss and goes on with what is kept (`Awaits.poll_lagging`). So of the events of its kind a handler
misses those that were lost before it came to look (`missed`), and it gets the first of the others (`once_outcome`). One
that is never so far behind misses none (`missed_of_keepsUp`); without that an event is missed (`once_misses`).
-/
import SensorNode.Proofs.Receivers

namespace SensorNode.Bus

/-- what is done with a bus -/
inductive Op
  | emit (event : DomainEvent)
  /-- a handler is installed -/
  | once (kind : DomainEventKind)
  /-- a handler looks at what is next -/
  | poll (handler : Nat)
  | abort (handler : Nat)
  deriving DecidableEq

def step (b : Bus) : Op → Bus
  | .emit event => b.emit event
  | .once kind => (b.once kind).2
  | .poll handler => (b.poll handler).2
  | .abort handler => b.abort handler

def run (b : Bus) (ops : List Op) : Bus := ops.foldl step b

def Op.emits : Op → List DomainEvent
  | .emit event => [event]
  | _ => []

/-- the events that are published, oldest first -/
def emitted (ops : List Op) : List DomainEvent := ops.flatMap Op.emits

/-- what an operation hands to a handler -/
def hands (n : Nat) (b : Bus) : Op → List DomainEvent
  | .poll m => if m = n then (b.poll n).1.toList else []
  | _ => []

/-- the events with which a handler is called during a run -/
def calls (n : Nat) (b : Bus) : List Op → List DomainEvent
  | [] => []
  | op :: ops => b.hands n op ++ (b.step op).calls n ops

/-- the events that a waiting handler has not looked at and that are not kept any more -/
def lost (b : Bus) (n : Nat) : List DomainEvent :=
  match b.handlers[n]? with
  | some ⟨_, receiver, .waiting⟩ =>
    ((b.receivers[receiver]?).map fun r =>
      (b.events.take (b.sent - r.position)).reverse.take (b.lag r.position)).getD []
  | _ => []

/-- the events of a kind that are lost to a handler when it looks -/
def skips (n : Nat) (kind : DomainEventKind) (b : Bus) : Op → List DomainEvent
  | .poll m => if m = n then (b.lost n).filter (·.kind = kind) else []
  | _ => []

/-- the events of a kind that a handler misses during a run -/
def missed (n : Nat) (kind : DomainEventKind) (b : Bus) : List Op → List DomainEvent
  | [] => []
  | op :: ops => b.skips n kind op ++ (b.step op).missed n kind ops

/-- whenever the handler looks, all that it has not looked at is kept -/
def keepsUp (n : Nat) (b : Bus) : List Op → Bool
  | [] => true
  | op :: ops => !(op = .poll n && b.lags n) && (b.step op).keepsUp n ops

variable {b : Bus} {n : Nat} {kind : DomainEventKind} {ahead : List DomainEvent}

theorem run_cons (b : Bus) (op : Op) (ops : List Op) : b.run (op :: ops) = (b.step op).run ops := rfl

theorem run_append (b : Bus) (ops ops' : List Op) : b.run (ops ++ ops') = (b.run ops).run ops' := List.foldl_append

theorem step_sound (hb : Sound b) (op : Op) : Sound (b.step op) := by
  cases op with
  | emit event => exact hb.emit event
  | once kind => exact hb.once kind
  | poll handler => exact hb.poll handler
  | abort handler => exact hb.abort handler

theorem run_sound (hb : Sound b) (ops : List Op) : Sound (b.run ops) := by
  induction ops generalizing b with
  | nil => exact hb
  | cons op ops ih => exact ih (step_sound hb op)

/-! ## A handler that does not wait -/

/-- there is such a handler, and it has got its event or been aborted -/
def IsThrough (b : Bus) (n : Nat) : Prop := n < b.handlers.length ∧ b.isWaiting n = false

theorem IsThrough.step (h : b.IsThrough n) (op : Op) : (b.step op).IsThrough n := by
  obtain ⟨hlt, hwaits⟩ := h
  cases op with
  | emit event => exact ⟨hlt, hwaits⟩
  | once kind =>
    refine ⟨?_, (isWaiting_once kind hlt).trans hwaits⟩
    show n < (b.once kind).2.handlers.length
    rw [once_handlers, List.length_append]
    omega
  | poll m =>
    refine ⟨hlt.trans_eq (poll_length b m).symm, ?_⟩
    show (b.poll m).2.isWaiting n = false
    rcases poll_cases b m with ⟨-, hhandlers⟩ | ⟨event, -, -, hhandlers⟩ <;> rw [isWaiting_congr hhandlers]
    · exact hwaits
    · rw [isWaiting_setStatus (by decide), hwaits, Bool.and_false]
  | abort m =>
    refine ⟨hlt.trans_eq (abort_length b m).symm, ?_⟩
    show (b.abort m).isWaiting n = false
    rw [isWaiting_abort, hwaits, Bool.and_false]

theorem not_waiting (h : b.isWaiting n = false) {kind : DomainEventKind} {receiver : Nat} :
    b.handlers[n]? ≠ some ⟨kind, receiver, .waiting⟩ := fun hn => by
  rw [isWaiting_iff.2 ⟨kind, receiver, hn⟩] at h
  cases h

theorem IsThrough.isReady (h : b.IsThrough n) : b.handlerIsReady n = false := by
  unfold handlerIsReady
  split
  · rename_i hn
    exact absurd hn (not_waiting h.2)
  · rfl

theorem IsThrough.hands (h : b.IsThrough n) (op : Op) : b.hands n op = [] := by
  cases op with
  | poll m =>
    simp only [Bus.hands]
    split_ifs
    · rcases poll_cases b n with ⟨hnone, -⟩ | ⟨event, -, hwaits, -⟩
      · rw [hnone]
        rfl
      · cases h.2.symm.trans hwaits
    · rfl
  | _ => rfl

theorem IsThrough.skips (h : b.IsThrough n) (op : Op) : b.skips n kind op = [] := by
  have hlost : b.lost n = [] := by
    unfold lost
    split
    · rename_i hn
      exact absurd hn (not_waiting h.2)
    · rfl
  cases op with
  | poll m =>
    simp only [Bus.skips, hlost]
    split_ifs <;> rfl
  | _ => rfl

theorem IsThrough.run (h : b.IsThrough n) (ops : List Op) : (b.run ops).IsThrough n := by
  induction ops generalizing b with
  | nil => exact h
  | cons op ops ih => exact ih (h.step op)

/-- it is handed nothing any more, and misses nothing -/
theorem IsThrough.outcome (h : b.IsThrough n) (kind : DomainEventKind) (ops : List Op) :
    b.calls n ops = [] ∧ b.missed n kind ops = [] := by
  induction ops generalizing b with
  | nil => exact ⟨rfl, rfl⟩
  | cons op ops ih =>
    obtain ⟨hcalls, hmissed⟩ := ih (h.step op)
    constructor
    · rw [calls, h.hands, hcalls]
      rfl
    · rw [missed, h.skips, hmissed]
      rfl

/-! ## A handler that waits -/

/-- it waits for the events from now on -/
theorem once_awaits (b : Bus) (kind : DomainEventKind) : (b.once kind).2.Awaits b.handlers.length kind [] := by
  refine ⟨b.receivers.length, ⟨b.sent, true⟩, ?_, ?_, le_rfl, ?_⟩
  · simp
  · show (b.receivers ++ [⟨b.sent, true⟩])[b.receivers.length]? = _
    simp
  · show _ = (b.events.take (b.sent - b.sent)).reverse
    rw [Nat.sub_self]
    rfl

theorem Awaits.once (hb : Sound b) (h : b.Awaits n kind ahead) (kind' : DomainEventKind) :
    (b.once kind').2.Awaits n kind ahead := by
  obtain ⟨receiver, r, hn, -⟩ := id h
  have hlt : n < b.handlers.length := (List.getElem?_eq_some_iff.1 hn).1
  refine h.of_ne rfl rfl ?_ fun h' hn' => ?_
  · rw [once_handlers, List.getElem?_append_left hlt]
  · show ((b.receivers ++ [⟨b.sent, true⟩])[h'.receiver]?).map Receiver.position = _
    rw [List.getElem?_append_left (hb.owned n h' hn')]

theorem length_reverse_take (hb : Sound b) (k : Nat) (hk : k ≤ b.sent) : (b.events.take k).reverse.length = k := by
  rw [List.length_reverse, List.length_take, hb.counted, Nat.min_eq_left hk]

/-- what is lost to it is what is ahead of it but for the events that are kept -/
theorem Awaits.lost_eq (hb : Sound b) (h : b.Awaits n kind ahead) : b.lost n = ahead.take (ahead.length - capacity) := by
  obtain ⟨receiver, r, hn, hr, hle, rfl⟩ := h
  rw [length_reverse_take hb _ (Nat.sub_le _ _)]
  simp only [lost, hn, hr, Option.map_some, Option.getD_some, lag]

theorem Awaits.lags_eq (hb : Sound b) (h : b.Awaits n kind ahead) : b.lags n = decide (capacity < ahead.length) := by
  obtain ⟨receiver, r, hn, hr, hle, rfl⟩ := h
  rw [length_reverse_take hb _ (Nat.sub_le _ _)]
  simp only [lags, hn, hr, Option.any_some, lag]
  exact decide_eq_decide.2 (by omega)

/-- a handler that has lost events is told so, and has the others still to look at -/
theorem Awaits.poll_lagging (hb : Sound b) (h : b.Awaits n kind ahead) (hlags : b.lags n = true) :
    (b.poll n).1 = none ∧ (b.poll n).2.Awaits n kind (ahead.drop (ahead.length - capacity)) := by
  have hlong : capacity < ahead.length := of_decide_eq_true ((h.lags_eq hb).symm.trans hlags)
  obtain ⟨receiver, r, hn, hr, hle, rfl⟩ := h
  rw [length_reverse_take hb _ (Nat.sub_le _ _)] at hlong ⊢
  have hlag : b.lag r.position ≠ 0 := by
    unfold lag
    omega
  have hnext : b.next receiver =
      (none, { b with receivers := b.receivers.set receiver { r with position := r.position + b.lag r.position } }) := by
    simp only [Bus.next, hr, hlag, if_false]
  have hpoll : b.poll n =
      (none, { b with receivers := b.receivers.set receiver { r with position := r.position + b.lag r.position } }) := by
    simp only [Bus.poll, hn, hnext, Option.filter_none]
  have hset : (b.receivers.set receiver { r with position := r.position + b.lag r.position })[receiver]? =
      some { r with position := r.position + b.lag r.position } :=
    List.getElem?_set_self (List.getElem?_eq_some_iff.1 hr).1
  rw [hpoll]
  refine ⟨rfl, receiver, _, hn, hset, ?_, ?_⟩
  · show r.position + b.lag r.position ≤ b.sent
    unfold lag
    omega
  · have hkept : b.sent - (r.position + b.lag r.position) =
        b.sent - r.position - (b.sent - r.position - capacity) := by
      unfold lag
      omega
    simp only [hkept]
    rw [List.drop_reverse, List.length_take, hb.counted, Nat.min_eq_left (Nat.sub_le _ _), List.take_take,
      Nat.min_eq_left (Nat.sub_le _ _)]

/-- A handler that looks gets the first of the events that are ahead of it, if that is of its kind, or it is past that
one or past those that are lost. -/
theorem Awaits.poll_own (hb : Sound b) (h : b.Awaits n kind ahead) :
    (∃ event rest, ahead = event :: rest ∧ event.kind = kind ∧ b.lost n = [] ∧ (b.poll n).1 = some event) ∨
      ∃ ahead', (b.poll n).1 = none ∧ (b.poll n).2.Awaits n kind ahead' ∧
        ahead.filter (·.kind = kind) = (b.lost n).filter (·.kind = kind) ++ ahead'.filter (·.kind = kind) ∧
        ahead'.length ≤ capacity ∧ (ahead.length ≤ capacity → ahead' = ahead.tail) := by
  rw [h.lost_eq hb]
  cases hlags : b.lags n with
  | true =>
    have hlong : capacity < ahead.length := of_decide_eq_true ((h.lags_eq hb).symm.trans hlags)
    obtain ⟨hnone, hawaits⟩ := h.poll_lagging hb hlags
    refine Or.inr ⟨_, hnone, hawaits, ?_, ?_, fun hshort => by omega⟩
    · rw [← List.filter_append, List.take_append_drop]
    · rw [List.length_drop]
      omega
  | false =>
    have hshort : ¬capacity < ahead.length := of_decide_eq_false ((h.lags_eq hb).symm.trans hlags)
    rw [Nat.sub_eq_zero_of_le (Nat.le_of_not_lt hshort), List.take_zero]
    rcases h.poll hb hlags with ⟨event, rest, hahead, hkind, hevent⟩ | ⟨hother, hnone, hawaits⟩
    · exact Or.inl ⟨event, rest, hahead, hkind, rfl, hevent⟩
    · refine Or.inr ⟨ahead.tail, hnone, hawaits, ?_, ?_, fun _ => rfl⟩
      · cases ahead with
        | nil => rfl
        | cons event rest =>
          have hskip : ¬event.kind = kind := hother event rfl
          simp [hskip]
      · rw [List.length_tail]
        omega

theorem isThrough_poll {event : DomainEvent} (h : (b.poll n).1 = some event) : (b.poll n).2.IsThrough n := by
  rcases poll_cases b n with ⟨hnone, -⟩ | ⟨event', -, hwaits, hhandlers⟩
  · cases hnone.symm.trans h
  · obtain ⟨kind, receiver, hn⟩ := isWaiting_iff.1 hwaits
    refine ⟨(List.getElem?_eq_some_iff.1 hn).1.trans_eq (poll_length b n).symm, ?_⟩
    rw [isWaiting_congr hhandlers, isWaiting_setStatus (by decide)]
    simp

/-- One operation hands a waiting handler the first event that is ahead of it, or leaves it waiting; then of the events
of its kind those that are ahead of it are the ones that were, and were published, without those that it misses. -/
theorem Awaits.step (hb : Sound b) (h : b.Awaits n kind ahead) {op : Op} (hop : op ≠ .abort n) :
    (∃ event rest, ahead = event :: rest ∧ event.kind = kind ∧ op.emits = [] ∧ b.skips n kind op = [] ∧
        b.hands n op = [event] ∧ (b.step op).IsThrough n) ∨
      ∃ ahead', b.hands n op = [] ∧ (b.step op).Awaits n kind ahead' ∧
        (ahead ++ op.emits).filter (·.kind = kind) = b.skips n kind op ++ ahead'.filter (·.kind = kind) := by
  cases op with
  | emit event => exact Or.inr ⟨ahead ++ [event], rfl, h.emit event, rfl⟩
  | once kind' => exact Or.inr ⟨ahead, rfl, h.once hb kind', congrArg _ (List.append_nil ahead)⟩
  | abort m => exact Or.inr ⟨ahead, rfl, h.abort fun he => hop (he ▸ rfl), congrArg _ (List.append_nil ahead)⟩
  | poll m =>
    by_cases hm : m = n
    · subst hm
      have hskips : b.skips m kind (.poll m) = (b.lost m).filter (·.kind = kind) := if_pos rfl
      have hhands : b.hands m (.poll m) = (b.poll m).1.toList := if_pos rfl
      rcases h.poll_own hb with ⟨event, rest, hahead, hkind, hlost, hevent⟩ | ⟨ahead', hnone, hawaits, hfilter, -⟩
      · refine Or.inl ⟨event, rest, hahead, hkind, rfl, ?_, ?_, isThrough_poll hevent⟩
        · rw [hskips, hlost]
          rfl
        · rw [hhands, hevent]
          rfl
      · refine Or.inr ⟨ahead', ?_, hawaits, ?_⟩
        · rw [hhands, hnone]
          rfl
        · rw [hskips, ← hfilter]
          exact congrArg _ (List.append_nil ahead)
    · have hskips : b.skips n kind (.poll m) = [] := if_neg hm
      have hhands : b.hands n (.poll m) = [] := if_neg hm
      refine Or.inr ⟨ahead, hhands, h.poll_of_ne hb hm, ?_⟩
      rw [hskips]
      exact congrArg _ (List.append_nil ahead)

/-- Of the events of its kind that are ahead of a waiting handler, or are published, it misses the first so many, and it
has been handed the first of the others or waits for it. -/
theorem Awaits.run (hb : Sound b) (h : b.Awaits n kind ahead) {ops : List Op} (hops : ∀ op ∈ ops, op ≠ .abort n) :
    ∃ rest, (ahead ++ emitted ops).filter (·.kind = kind) = b.missed n kind ops ++ rest ∧
      ((b.run ops).IsThrough n ∧ b.calls n ops = rest.head?.toList ∨
        b.calls n ops = [] ∧ ∃ ahead', (b.run ops).Awaits n kind ahead' ∧ rest = ahead'.filter (·.kind = kind)) := by
  induction ops generalizing b ahead with
  | nil => exact ⟨_, congrArg _ (List.append_nil ahead), Or.inr ⟨rfl, ahead, h, rfl⟩⟩
  | cons op ops ih =>
    have hemitted : emitted (op :: ops) = op.emits ++ emitted ops := List.flatMap_cons
    rw [hemitted, ← List.append_assoc, List.filter_append, run_cons, calls, missed]
    rcases h.step hb (hops op List.mem_cons_self) with
      ⟨event, rest, rfl, hkind, hemits, hskips, hhands, hthrough⟩ | ⟨ahead', hhands, hawaits, hfilter⟩
    · -- it has its event, and nothing more becomes of it
      obtain ⟨hcalls, hmissed⟩ := hthrough.outcome kind ops
      rw [hemits, hskips, hhands, hcalls, hmissed]
      refine ⟨_, rfl, Or.inl ⟨hthrough.run ops, ?_⟩⟩
      simp [hkind]
    · obtain ⟨rest, hrest, hcases⟩ := ih (step_sound hb op) hawaits fun op' hop' => hops op' (List.mem_cons_of_mem op hop')
      rw [List.filter_append] at hrest
      refine ⟨rest, ?_, ?_⟩
      · rw [hfilter, List.append_assoc, hrest, List.append_assoc]
      · rw [hhands]
        exact hcases

/-! ## How far a handler goes -/

/-- as many looks as there are events ahead are enough, if none is lost -/
theorem Awaits.polls (hb : Sound b) (h : b.Awaits n kind ahead) {k : Nat} (hahead : ahead.length ≤ k)
    (hk : k ≤ capacity) : (b.run (List.replicate k (.poll n))).handlerIsReady n = false := by
  induction k generalizing b ahead with
  | zero =>
    rw [List.eq_nil_of_length_eq_zero (Nat.le_zero.1 hahead)] at h
    exact h.isReady hb
  | succ k ih =>
    rw [List.replicate_succ, run_cons]
    rcases h.poll_own hb with ⟨event, rest, -, -, -, hevent⟩ | ⟨ahead', -, hawaits, -, -, htail⟩
    · exact ((isThrough_poll hevent).run _).isReady
    · refine ih (step_sound hb (.poll n)) hawaits ?_ (by omega)
      rw [htail (hahead.trans hk), List.length_tail]
      omega

/-- one more look is enough in any case: the first one goes past what is lost -/
theorem Awaits.comes_to_rest (hb : Sound b) (h : b.Awaits n kind ahead) :
    (b.run (List.replicate (capacity + 1) (.poll n))).handlerIsReady n = false := by
  rw [List.replicate_succ, run_cons]
  rcases h.poll_own hb with ⟨event, rest, -, -, -, hevent⟩ | ⟨ahead', -, hawaits, -, hshort, -⟩
  · exact ((isThrough_poll hevent).run _).isReady
  · exact hawaits.polls (step_sound hb (.poll n)) hshort le_rfl

/-- nothing is lost to a handler that does not lag -/
theorem lost_of_not_lags (h : b.lags n = false) : b.lost n = [] := by
  unfold lags at h
  unfold lost
  split
  · rename_i kind receiver hn
    rw [hn] at h
    cases hr : b.receivers[receiver]? with
    | none => rfl
    | some r =>
      have hlag : b.lag r.position = 0 := by simpa [hr] using h
      simp [hlag]
  · rfl

theorem missed_of_keepsUp {ops : List Op} (h : b.keepsUp n ops = true) : b.missed n kind ops = [] := by
  induction ops generalizing b with
  | nil => rfl
  | cons op ops ih =>
    obtain ⟨hop, hops⟩ := Bool.and_eq_true_iff.1 h
    have hskips : b.skips n kind op = [] := by
      cases op with
      | poll m =>
        simp only [skips]
        split_ifs with hm
        · subst hm
          rw [lost_of_not_lags (by simpa using hop)]
          rfl
        · rfl
      | _ => rfl
    rw [missed, hskips, ih hops]
    rfl

/--
**A handler for one event.** It is installed on a bus that has come to any state, and then events are published and
handlers look, in any order and at any pace; others may be installed or aborted, and this one is not aborted. The events
of its kind that are published from then on are those that it misses, which were lost before it came to look, and then the
others. It is called once, with the first of the others, or not at all if there are none or if it has still to look at
events. It misses none if it keeps up: as long as it is not more than 256 events behind whenever it looks. And 257 looks
in a row are enough to leave it nothing to look at.
-/
theorem once_outcome (earlier later : List Op) (kind : DomainEventKind) :
    let n := ((new.run earlier).once kind).1
    let b := ((new.run earlier).once kind).2
    (∀ op ∈ later, op ≠ .abort n) →
      (∃ rest, (emitted later).filter (·.kind = kind) = b.missed n kind later ++ rest ∧
        (b.calls n later = rest.head?.toList ∨ b.calls n later = [] ∧ (b.run later).handlerIsReady n = true)) ∧
      (b.keepsUp n later = true → b.missed n kind later = []) ∧
      (b.run (later ++ List.replicate (capacity + 1) (.poll n))).handlerIsReady n = false := by
  intro n b hlater
  have hb : Sound b := (run_sound new_sound earlier).once kind
  have hawaits : b.Awaits n kind [] := once_awaits (new.run earlier) kind
  obtain ⟨rest, hrest, hcases⟩ := hawaits.run hb hlater
  refine ⟨⟨rest, hrest, ?_⟩, missed_of_keepsUp, ?_⟩
  · rcases hcases with ⟨-, hcalls⟩ | ⟨hcalls, ahead, hahead, rfl⟩
    · exact Or.inl hcalls
    · cases ahead with
      | nil => exact Or.inl hcalls
      | cons event ahead => exact Or.inr ⟨hcalls, hahead.isReady (run_sound hb later)⟩
  · rw [run_append]
    rcases hcases with ⟨hthrough, -⟩ | ⟨-, ahead, hahead, -⟩
    · exact (hthrough.run _).isReady
    · exact hahead.comes_to_rest (run_sound hb later)

/-- Someone else has been waiting; of two logins that are announced after an event of another kind, the handler is called
with the first. -/
theorem once_outcome_two_logins :
    let n := ((new.run [.once .removed]).once .loggedOn).1
    let b := ((new.run [.once .removed]).once .loggedOn).2
    b.calls n [.emit .removed, .poll n, .emit .loggedOn, .poll 0, .emit .loggedOn, .poll n, .poll n] = [.loggedOn] := by
  intro n b
  obtain ⟨⟨rest, hrest, hcalls⟩, hkeeps, -⟩ := once_outcome [.once .removed]
    [.emit .removed, .poll n, .emit .loggedOn, .poll 0, .emit .loggedOn, .poll n, .poll n] .loggedOn (by decide +kernel)
  rw [hkeeps (by decide +kernel), List.nil_append] at hrest
  rcases hcalls with hcalls | ⟨-, hready⟩
  · rw [hcalls, ← hrest]
    rfl
  · exact absurd hready (by decide +kernel)

/-- The login is announced, and then so many other events that it is lost before the handler looks. The handler comes to
rest without having been called. -/
theorem once_misses :
    let b := (new.once .loggedOn).2
    let later := .emit .loggedOn :: List.replicate capacity (.emit .removed) ++ List.replicate (capacity + 1) (.poll 0)
    (∀ op ∈ later, op ≠ .abort 0) ∧ .loggedOn ∈ emitted later ∧ (b.run later).handlerIsReady 0 = false ∧
      b.calls 0 later = [] := by
  decide +kernel

end SensorNode.Bus
