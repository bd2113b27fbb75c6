/-
The handlers of the event bus: which of them still wait. Publishing an event does not touch them (`emit_handlers`), a
new one leaves the others as they were (`isWaiting_once`), and a poll ends the handler to which it hands an event and
touches no other (`poll_cases`).
-/
import Mathlib.Data.List.Basic
import Mathlib.Tactic
import SensorNode.Bus

namespace SensorNode.Bus

variable {b : Bus} {n handler : Nat}

/-- a handler has neither got its event nor been aborted -/
def isWaiting (b : Bus) (handler : Nat) : Bool := (b.handlers[handler]?).any fun h => h.status = .waiting

theorem isWaiting_iff :
    b.isWaiting handler = true ↔ ∃ kind receiver, b.handlers[handler]? = some ⟨kind, receiver, .waiting⟩ := by
  unfold isWaiting
  cases h : b.handlers[handler]? with
  | none => simp
  | some x =>
    obtain ⟨kind, receiver, status⟩ := x
    simp

/-- whether a handler waits is read off the list of handlers -/
theorem isWaiting_congr {b' : Bus} (h : b'.handlers = b.handlers) : b'.isWaiting handler = b.isWaiting handler := by
  unfold isWaiting
  rw [h]

@[simp] theorem emit_handlers (b : Bus) (event : DomainEvent) : (b.emit event).handlers = b.handlers := rfl

@[simp] theorem once_handlers (b : Bus) (kind : DomainEventKind) :
    (b.once kind).2.handlers = b.handlers ++ [⟨kind, b.receivers.length, .waiting⟩] := rfl

@[simp] theorem once_fst (b : Bus) (kind : DomainEventKind) : (b.once kind).1 = b.handlers.length := rfl

@[simp] theorem drop_handlers (b : Bus) (receiver : Nat) : (b.drop receiver).handlers = b.handlers := rfl

theorem isWaiting_once (kind : DomainEventKind) (h : handler < b.handlers.length) :
    (b.once kind).2.isWaiting handler = b.isWaiting handler := by
  unfold isWaiting
  rw [once_handlers, List.getElem?_append_left h]

/-- a change of status ends the wait of one handler and leaves the others as they were -/
theorem isWaiting_setStatus {status : Handler.Status} (hs : status ≠ .waiting) :
    (b.setStatus n status).isWaiting handler = (!decide (handler = n) && b.isWaiting handler) := by
  unfold isWaiting setStatus
  rw [List.getElem?_modify]
  by_cases hn : n = handler
  · subst hn
    cases b.handlers[n]? <;> simp [hs]
  · simp [hn, Ne.symm hn]

@[simp] theorem setStatus_length (b : Bus) (n : Nat) (status : Handler.Status) :
    (b.setStatus n status).handlers.length = b.handlers.length := by simp [setStatus]

/-- an aborted handler does not wait any more, and the others are as they were -/
theorem isWaiting_abort : (b.abort n).isWaiting handler = (!decide (handler = n) && b.isWaiting handler) := by
  unfold abort
  split
  · rw [isWaiting_congr (drop_handlers _ _), isWaiting_setStatus (by decide)]
  · rename_i hnot
    by_cases hn : handler = n
    · subst hn
      have : b.isWaiting handler = false := by
        refine Bool.eq_false_iff.2 fun h => ?_
        obtain ⟨kind, receiver, hh⟩ := isWaiting_iff.1 h
        exact hnot kind receiver hh
      simp [this]
    · simp [hn]

@[simp] theorem abort_length (b : Bus) (n : Nat) : (b.abort n).handlers.length = b.handlers.length := by
  unfold abort
  split <;> simp

@[simp] theorem next_handlers (b : Bus) (receiver : Nat) : (b.next receiver).2.handlers = b.handlers := by
  unfold next
  split <;> rfl

/-- a poll hands nothing out and touches no handler, or it hands an event to a handler that waited for it -/
theorem poll_cases (b : Bus) (n : Nat) :
    ((b.poll n).1 = none ∧ (b.poll n).2.handlers = b.handlers) ∨
      ∃ event, (b.poll n).1 = some event ∧ b.isWaiting n = true ∧
        (b.poll n).2.handlers = (b.setStatus n .done).handlers := by
  unfold poll
  split
  · rename_i kind receiver hh
    cases hf : (b.next receiver).1.filter fun e => decide (e.kind = kind) with
    | none => exact Or.inl ⟨by simp [hf], by simp [hf]⟩
    | some event =>
      refine Or.inr ⟨event, by simp [hf], isWaiting_iff.2 ⟨kind, receiver, hh⟩, ?_⟩
      simp [hf, setStatus]
  · exact Or.inl ⟨rfl, rfl⟩

theorem poll_length (b : Bus) (n : Nat) : (b.poll n).2.handlers.length = b.handlers.length := by
  rcases poll_cases b n with ⟨-, h⟩ | ⟨event, -, -, h⟩ <;> rw [h]
  exact setStatus_length b n .done

/-- what a poll hands out has been published, and a poll publishes nothing -/
theorem poll_events (b : Bus) (n : Nat) :
    (b.poll n).2.events = b.events ∧ ∀ event, (b.poll n).1 = some event → event ∈ b.events := by
  have hnext : ∀ receiver, (b.next receiver).2.events = b.events ∧
      ∀ event, (b.next receiver).1 = some event → event ∈ b.events := by
    intro receiver
    unfold next
    split
    · rename_i r _
      refine ⟨rfl, fun event he => ?_⟩
      dsimp only at he
      split_ifs at he
      exact List.mem_of_mem_take (List.mem_reverse.1 (List.mem_of_mem_head? he))
    · exact ⟨rfl, fun event he => by cases he⟩
  unfold poll
  split
  · rename_i kind receiver hh
    obtain ⟨hevents, hmem⟩ := hnext receiver
    cases hf : (b.next receiver).1.filter fun e => decide (e.kind = kind) with
    | none => simpa [hf] using hevents
    | some event =>
      refine ⟨by simpa [hf, setStatus, drop] using hevents, fun e he => ?_⟩
      obtain rfl : event = e := by simpa [hf] using he
      exact hmem event (Option.mem_filter_iff.1 hf).1
  · exact ⟨rfl, fun event he => by cases he⟩

end SensorNode.Bus
