import Shelterflex.Lib.Store

namespace Lib
set_option autoImplicit true

/-- A stored value and the last tick of a clock at which it is there. -/
structure Lease (ν : Type) where
  value : ν
  liveUntil : Nat
deriving DecidableEq, Repr

/-- A lease that runs out soon is extended, and none is shortened. -/
def Lease.extend (e : Lease ν) (now threshold extendTo : Nat) : Lease ν :=
  if e.liveUntil < now + extendTo ∧ e.liveUntil - now ≤ threshold then
    { e with liveUntil := now + extendTo }
  else e

@[simp] theorem Lease.extend_value (e : Lease ν) (now threshold extendTo : Nat) :
    (e.extend now threshold extendTo).value = e.value := by
  unfold Lease.extend
  split <;> rfl

theorem Lease.le_extend (e : Lease ν) (now threshold extendTo : Nat) :
    e.liveUntil ≤ (e.extend now threshold extendTo).liveUntil := by
  unfold Lease.extend
  split
  · rename_i h
    exact Nat.le_of_lt h.1
  · exact Nat.le_refl _

theorem Lease.target_le_extend {e : Lease ν} (h : e.liveUntil - now ≤ threshold) :
    now + extendTo ≤ (e.extend now threshold extendTo).liveUntil := by
  unfold Lease.extend
  split
  · exact Nat.le_refl _
  · rename_i hn
    by_contra hlt
    exact hn ⟨Nat.lt_of_not_le hlt, h⟩

theorem Lease.lt_extend (h : threshold < extendTo) (e : Lease ν) (now : Nat) :
    now + threshold < (e.extend now threshold extendTo).liveUntil := by
  unfold Lease.extend
  split
  · exact Nat.add_lt_add_left h now
  · omega

theorem Lease.extend_of_lt {l : Lease ν} (h : now + threshold < l.liveUntil) (extendTo : Nat) :
    l.extend now threshold extendTo = l := by
  unfold Lease.extend
  split
  · omega
  · rfl

theorem Lease.extend_liveUntil (e : Lease ν) (now threshold extendTo : Nat) :
    (e.extend now threshold extendTo).liveUntil = e.liveUntil ∨
      (e.extend now threshold extendTo).liveUntil = now + extendTo := by
  unfold Lease.extend
  split
  · exact .inr rfl
  · exact .inl rfl

/-- A store whose entries are gone once a clock has passed their marks. -/
abbrev Expiring (κ ν : Type) := Store κ (Lease ν)

namespace Expiring

def live (m : Expiring κ ν) (now : Nat) (k : κ) : Option (Lease ν) :=
  (m.get k).filter (now ≤ ·.liveUntil)

theorem live_some {m : Expiring κ ν} :
    m.live now k = some e ↔ m.get k = some e ∧ now ≤ e.liveUntil := by
  rw [live, Option.filter_eq_some_iff, decide_eq_true_eq]

def read (m : Expiring κ ν) (now : Nat) (k : κ) : Option ν := (m.live now k).map (·.value)

theorem stored_of_read {m : Expiring κ ν} (h : m.read now k = some v) : m.get k ≠ none := by
  obtain ⟨e, he, _⟩ := Option.map_eq_some_iff.mp h
  rw [(live_some.mp he).1]
  nofun

/-- The entry holds a value until a tick at least. -/
def Lasts (m : Expiring κ ν) (k : κ) (v : ν) (n : Nat) : Prop :=
  ∃ e, m.get k = some e ∧ e.value = v ∧ n ≤ e.liveUntil

theorem Lasts.read {m : Expiring κ ν} (h : m.Lasts k v n) (hn : now ≤ n) :
    m.read now k = some v := by
  obtain ⟨e, he, rfl, hle⟩ := h
  rw [Expiring.read, live_some.mpr ⟨he, hn.trans hle⟩]
  rfl

theorem Lasts.of_get {m m' : Expiring κ ν} (h : m.Lasts k v n) (hg : m'.get k = m.get k) :
    m'.Lasts k v n := by
  obtain ⟨e, he, hv⟩ := h
  exact ⟨e, hg.trans he, hv⟩

section
variable [DecidableEq κ]

/-- Write a value. A live entry keeps its mark, and a new one gets the least lifetime. -/
def write (m : Expiring κ ν) (now lifetime : Nat) (k : κ) (v : ν) : Expiring κ ν :=
  m.set k ⟨v, ((m.live now k).map (·.liveUntil)).getD (now + lifetime)⟩

/-- Extend the life of an entry that is there. -/
def extend (m : Expiring κ ν) (now threshold extendTo : Nat) (k : κ) : Expiring κ ν :=
  match m.live now k with
  | some e => m.set k (e.extend now threshold extendTo)
  | none => m

theorem extend_of_absent {m : Expiring κ ν} (h : m.read now k = none) (threshold extendTo : Nat) :
    m.extend now threshold extendTo k = m := by
  have hl : m.live now k = none := Option.map_eq_none_iff.mp h
  rw [extend, hl]

theorem extend_stored {m : Expiring κ ν} :
    (m.extend now threshold extendTo k).get k' ≠ none ↔ m.get k' ≠ none := by
  unfold extend
  split
  · rename_i e he
    by_cases hk : k' = k
    · subst hk
      rw [Store.get_set_self, (live_some.mp he).1]
      exact ⟨nofun, nofun⟩
    · rw [Store.get_set_of_ne _ _ hk]
  · rfl

/-- An extension ends no life early. -/
theorem Lasts.extend {m : Expiring κ ν} (h : m.Lasts k v n) (now threshold extendTo : Nat)
    (k' : κ) : (m.extend now threshold extendTo k').Lasts k v n := by
  unfold Expiring.extend
  split
  · rename_i e he
    by_cases hk : k = k'
    · subst hk
      obtain ⟨e', he', rfl, hle⟩ := h
      cases he'.symm.trans (live_some.mp he).1
      exact ⟨_, Store.get_set_self _ _ _, Lease.extend_value .., hle.trans (Lease.le_extend ..)⟩
    · exact h.of_get (Store.get_set_of_ne _ _ hk)
  · exact h

theorem lasts_new {m : Expiring κ ν} (h : m.read now k = none) (hl : lifetime ≤ threshold)
    (v : ν) (extendTo : Nat) :
    ((m.write now lifetime k v).extend now threshold extendTo k).Lasts k v (now + extendTo) := by
  have hnew : m.live now k = none := Option.map_eq_none_iff.mp h
  have hw : (m.write now lifetime k v).live now k = some ⟨v, now + lifetime⟩ := by
    rw [live_some, write, hnew, Store.get_set_self]
    exact ⟨rfl, Nat.le_add_right _ _⟩
  rw [extend, hw]
  refine ⟨_, Store.get_set_self _ _ _, Lease.extend_value .., Lease.target_le_extend ?_⟩
  rw [Nat.add_sub_cancel_left]
  exact hl

end

end Expiring

end Lib
