/-
Cancellation: flags that can be raised and never lowered. Copies of a handle share its flag.
-/
namespace SensorNode

/-- names one flag -/
structure CancelHandle where
  flag : Nat
  deriving DecidableEq, Repr, Inhabited

/-- the flags issued so far and those that are raised -/
structure CancelFlags where
  issued : Nat
  raised : List CancelHandle
  deriving DecidableEq, Repr, Inhabited

namespace CancelFlags

def none : CancelFlags := ⟨0, []⟩

/-- a flag of its own -/
def issue (f : CancelFlags) : CancelHandle × CancelFlags := (⟨f.issued⟩, { f with issued := f.issued + 1 })

def isCancelled (f : CancelFlags) (h : CancelHandle) : Bool := f.raised.contains h

def cancel (f : CancelFlags) (h : CancelHandle) : CancelFlags :=
  if f.isCancelled h then f else { f with raised := h :: f.raised }

def cancelAll (f : CancelFlags) (handles : List CancelHandle) : CancelFlags := handles.foldl cancel f

theorem isCancelled_cancel (f : CancelFlags) (h k : CancelHandle) :
    (f.cancel h).isCancelled k = (k == h || f.isCancelled k) := by
  unfold cancel
  split
  · rename_i hc
    by_cases hk : k = h
    · subst hk
      simp [hc]
    · simp [hk]
  · by_cases hk : k = h <;> simp [isCancelled, hk]

theorem isCancelled_cancelAll (f : CancelFlags) (handles : List CancelHandle) (k : CancelHandle) :
    (f.cancelAll handles).isCancelled k = (handles.contains k || f.isCancelled k) := by
  induction handles generalizing f with
  | nil => simp [cancelAll]
  | cons h hs ih =>
    have := ih (f.cancel h)
    simp only [cancelAll, List.foldl_cons] at this ⊢
    rw [this, isCancelled_cancel, List.contains_cons]
    cases hs.contains k <;> cases k == h <;> simp

@[simp] theorem issued_cancel (f : CancelFlags) (h : CancelHandle) : (f.cancel h).issued = f.issued := by
  unfold cancel
  split <;> rfl

@[simp] theorem issued_cancelAll (f : CancelFlags) (handles : List CancelHandle) :
    (f.cancelAll handles).issued = f.issued := by
  induction handles generalizing f with
  | nil => rfl
  | cons h hs ih => exact (ih (f.cancel h)).trans (issued_cancel f h)

end CancelFlags

end SensorNode
