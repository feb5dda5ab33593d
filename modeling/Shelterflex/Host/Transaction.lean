import Shelterflex.Host.Basic
import Shelterflex.Lib.Machine

namespace Shelterflex
open Lib
set_option autoImplicit true

/-! The storage writes of a call, and what the host keeps of them. -/

/-- A call that writes the storage as it goes. -/
abbrev Writing (σ ε α : Type) := ExceptT (Fault ε) (StateM σ) α

/-- How the call ends, and the storage it has written by then. -/
def Writing.written (x : Writing σ ε α) (s : σ) : Outcome ε α × σ := x.run.run s

/-- The host discards every write of a call that fails. -/
def Writing.atomically (x : Writing σ ε α) (s : σ) : Outcome ε α × σ :=
  match x.written s with
  | (.ok a, s') => (.ok a, s')
  | (.error f, _) => (.error f, s)

/-- A computation that writes nothing. -/
def check (x : Outcome ε α) : Writing σ ε α := ExceptT.mk (pure x)

def write (f : σ → σ) : Writing σ ε Unit := modify f

/-- What the host keeps of a call that is given by the state it ends in. -/
def landed (s : σ) : Outcome ε σ → Outcome ε Unit × σ
  | .ok s' => (.ok (), s')
  | .error f => (.error f, s)

namespace Writing

/-- A call that computes before it writes agrees with a computation step by step. -/
theorem atomically_check {x : Outcome ε α} {k : α → Writing σ ε Unit} {f : α → Outcome ε σ}
    (h : ∀ a, x = .ok a → (k a).atomically s = landed s (f a)) :
    atomically (check x >>= k) s = landed s (x >>= f) := by
  cases x with
  | error e => rfl
  | ok a => exact h a rfl

theorem atomically_get (k : σ → Writing σ ε α) (s : σ) :
    atomically (get >>= k) s = atomically (k s) s := rfl

theorem atomically_write (f : σ → σ) (s : σ) :
    (write f : Writing σ ε Unit).atomically s = landed s (.ok (f s)) := rfl

end Writing

/-! The calls of a run in time. -/

/-- The clock of the ledger never runs backwards between the calls of a run. -/
def TimeOrdered (t : List (Event σ (Env own × ι) ο)) : Prop :=
  (t.map (·.input.1.timestamp)).Pairwise (· ≥ ·)

instance : Decidable (TimeOrdered (t : List (Event σ (Env own × ι) ο))) :=
  inferInstanceAs (Decidable (List.Pairwise _ _))

theorem timeOrdered_cons {e : Event σ (Env own × ι) ο} {t : List (Event σ (Env own × ι) ο)} :
    TimeOrdered (e :: t) ↔
      (∀ p ∈ t, p.input.1.timestamp ≤ e.input.1.timestamp) ∧ TimeOrdered t := by
  rw [TimeOrdered, List.map_cons, List.pairwise_cons, List.forall_mem_map, TimeOrdered]

theorem TimeOrdered.suffix {later t : List (Event σ (Env own × ι) ο)}
    (h : TimeOrdered (later ++ t)) : TimeOrdered t := by
  rw [TimeOrdered, List.map_append] at h
  exact (List.pairwise_append.mp h).2.1

end Shelterflex
