import Shelterflex.Lib.Drain
import Shelterflex.WhistleblowerRewards.Model

/-! The sum of what can be claimed, and the loop that consumes it. -/

namespace Shelterflex.WhistleblowerRewards
open Lib
set_option autoImplicit true

/-- What a claim can draw from a record. -/
def AllocationRecord.available (holdWindow now : Nat) (r : AllocationRecord) : Int :=
  if r.status = .pending ∧ r.timestamp + holdWindow ≤ now then r.amount - r.claimedAmount else 0

def AllocationRecord.draw (n : Int) (r : AllocationRecord) : AllocationRecord :=
  if 0 < n then
    { r with
      claimedAmount := r.claimedAmount + n
      status := if r.amount ≤ r.claimedAmount + n then .claimed else r.status }
  else r

theorem draw_claimedAmount (r : AllocationRecord) (hn : 0 ≤ n) :
    (r.draw n).claimedAmount = r.claimedAmount + n := by
  unfold AllocationRecord.draw
  split
  · rfl
  · omega

theorem available_pos {r : AllocationRecord} (hn : 0 < n) (hle : n ≤ r.available w now) :
    (r.status = .pending ∧ r.timestamp + w ≤ now) ∧ n ≤ r.amount - r.claimedAmount := by
  unfold AllocationRecord.available at hle
  split at hle
  · exact ⟨‹_›, hle⟩
  · exact absurd hn (not_lt.mpr hle)

theorem draw_available {r : AllocationRecord} (hn : 0 ≤ n) (hle : n ≤ r.available w now) :
    (r.draw n).available w now = r.available w now - n := by
  unfold AllocationRecord.draw
  split
  · rename_i hpos
    obtain ⟨hr, hle⟩ := available_pos hpos hle
    unfold AllocationRecord.available
    rw [if_pos hr]
    dsimp only
    split
    · rw [if_neg nofun]
      omega
    · omega
  · omega

/-- What the pair can claim from its allocation `i`. -/
def availableAt (holdWindow now : Nat) (s : State) (u : Address) (l : Bytes) (i : Nat) : Int :=
  match getAllocation s u l i with
  | some r => r.available holdWindow now
  | none => 0

theorem availableAt_of (h : getAllocation s u l i = some r) :
    availableAt w now s u l i = r.available w now := by
  rw [availableAt, h]

theorem availableAt_none (h : getAllocation s u l i = none) : availableAt w now s u l i = 0 := by
  rw [availableAt, h]

theorem availableAt_congr (h : getAllocation s' u l i = getAllocation s u l i) :
    availableAt w now s' u l i = availableAt w now s u l i := by
  rw [availableAt, h, availableAt]

/-- What the pair has claimed from its allocation `i`. -/
def claimedAt (s : State) (u : Address) (l : Bytes) (i : Nat) : Int :=
  match getAllocation s u l i with
  | some r => r.claimedAmount
  | none => 0

theorem claimedAt_of (h : getAllocation s u l i = some r) :
    claimedAt s u l i = r.claimedAmount := by
  rw [claimedAt, h]

theorem claimedAt_none (h : getAllocation s u l i = none) : claimedAt s u l i = 0 := by
  rw [claimedAt, h]

theorem claimedAt_congr (h : getAllocation s' u l i = getAllocation s u l i) :
    claimedAt s' u l i = claimedAt s u l i := by
  rw [claimedAt, h, claimedAt]

/-- The claimable total of a pair. -/
def claimableOf (now : Nat) (s : State) (u : Address) (l : Bytes) : Int :=
  ∑ i ∈ Finset.range (getAllocationNonce s u l), availableAt (getHoldWindow s) now s u l i

theorem eligible_ok (h : (eligible w now r : Outcome ε Bool) = .ok b) :
    b = true ↔ r.status = .pending ∧ r.timestamp + w ≤ now := by
  unfold eligible at h
  split at h
  · rename_i hp
    simp only [bind_ok, u64Add_ok, pure_ok] at h
    obtain ⟨_, ⟨_, rfl⟩, rfl⟩ := h
    rw [decide_eq_true_iff]
    exact ⟨fun hle => ⟨hp, hle⟩, And.right⟩
  · rename_i hp
    cases pure_ok.mp h
    exact ⟨nofun, fun hr => absurd hr.1 hp⟩

theorem addClaimable_ok (h : (addClaimable w now u l s total i : Outcome ε Int) = .ok total') :
    total' = total + availableAt w now s u l i := by
  unfold addClaimable at h
  split at h
  · rename_i r hr
    obtain ⟨b, hb, h⟩ := bind_ok.mp h
    rw [availableAt_of hr, AllocationRecord.available]
    split at h
    · rename_i ht
      simp only [bind_ok, i128Sub_ok, i128Add_ok] at h
      obtain ⟨_, ⟨_, rfl⟩, _, rfl⟩ := h
      rw [if_pos ((eligible_ok hb).mp ht)]
    · rename_i ht
      cases pure_ok.mp h
      rw [if_neg (mt (eligible_ok hb).mpr ht), add_zero]
  · rename_i hr
    cases pure_ok.mp h
    rw [availableAt_none hr, add_zero]

theorem sumClaimable_ok (h : (sumClaimable now u l s : Outcome ε Int) = .ok total) :
    total = claimableOf now s u l := by
  unfold sumClaimable at h
  unfold claimableOf
  generalize getAllocationNonce s u l = k at h ⊢
  induction k generalizing total with
  | zero =>
    cases pure_ok.mp h
    rfl
  | succ k ih =>
    obtain ⟨total₁, h₁, h₂⟩ := foldlM_range_succ.mp h
    rw [addClaimable_ok h₂, ih h₁, Finset.sum_range_succ]

/-- The amounts `d` are drawn on the records of the pair, and nothing else changes. -/
structure Draws (u : Address) (l : Bytes) (d : Nat → Int) (s s' : State) : Prop where
  record (i : Nat) : getAllocation s' u l i = (getAllocation s u l i).map (.draw (d i))
  frame : (u', l') ≠ (u, l) → getAllocation s' u' l' i = getAllocation s u' l' i
  rest : s' = { s with allocation := s'.allocation }

theorem Draws.of_zero (hd : ∀ i, d i = 0) : Draws u l d s s := by
  refine ⟨fun i => ?_, fun _ => rfl, rfl⟩
  rw [hd i]
  cases getAllocation s u l i with
  | none => rfl
  | some r => rfl

theorem Draws.put (hr : getAllocation s u l i = some r) (x : Int) :
    Draws u l (fun j => if j = i then x else 0) s (putAllocation u l i (r.draw x) s) := by
  refine ⟨fun j => ?_, fun hk => ?_, rfl⟩
  · by_cases hj : j = i
    · subst j
      rw [if_pos rfl, hr]
      exact Store.get_set_self _ _ _
    · rw [if_neg hj]
      have hk : (u, l, j) ≠ (u, l, i) := fun he => hj (Prod.mk.inj (Prod.mk.inj he).2).2
      refine (Store.get_set_of_ne _ _ hk).trans ?_
      change getAllocation s u l j = _
      cases getAllocation s u l j with
      | none => rfl
      | some r => rfl
  · apply Store.get_set_of_ne
    rintro ⟨⟩
    exact hk rfl

/-- Draws on different records add up. -/
theorem Draws.trans (h : Draws u l d s s₁) (h' : Draws u l d' s₁ s')
    (hd : ∀ i, d i = 0 ∨ d' i = 0) : Draws u l (fun i => d i + d' i) s s' := by
  refine ⟨fun i => ?_, fun hk => (h'.frame hk).trans (h.frame hk), ?_⟩
  · rw [h'.record, h.record]
    cases getAllocation s u l i with
    | none => rfl
    | some r =>
      rcases hd i with hz | hz
      · rw [hz, zero_add]
        rfl
      · rw [hz, add_zero]
        rfl
  · rw [h'.rest, h.rest]

theorem Draws.congr (h : Draws u l d s s') (hd : ∀ i, d' i = d i) : Draws u l d' s s' :=
  funext hd ▸ h

theorem Draws.keys (h : Draws u l d s s') (hn : getAllocation s u' l' i = none) :
    getAllocation s' u' l' i = none := by
  by_cases hk : (u', l') = (u, l)
  · cases hk
    rw [h.record, hn]
    rfl
  · rw [h.frame hk, hn]

theorem Draws.holdWindow (h : Draws u l d s s') : getHoldWindow s' = getHoldWindow s := by
  rw [h.rest]
  rfl

theorem Draws.nonce (h : Draws u l d s s') (u' : Address) (l' : Bytes) :
    getAllocationNonce s' u' l' = getAllocationNonce s u' l' := by
  rw [h.rest]
  rfl

section
variable {d : Nat → Int} (hd : ∀ i, 0 ≤ d i) (hle : ∀ i, d i ≤ availableAt w now s u l i)
include hd hle

theorem Draws.available (h : Draws u l d s s') (i : Nat) :
    availableAt w now s' u l i = availableAt w now s u l i - d i := by
  have hi := hle i
  cases hr : getAllocation s u l i with
  | none =>
    rw [availableAt_none hr] at hi ⊢
    rw [availableAt_none (h.keys hr), le_antisymm hi (hd i), sub_zero]
  | some r =>
    rw [availableAt_of hr] at hi ⊢
    have hr' : getAllocation s' u l i = some (r.draw (d i)) := by
      rw [h.record, hr]
      rfl
    rw [availableAt_of hr', draw_available (hd i) hi]

theorem Draws.claimed (h : Draws u l d s s') (i : Nat) :
    claimedAt s' u l i = claimedAt s u l i + d i := by
  cases hr : getAllocation s u l i with
  | none =>
    have hi := hle i
    rw [availableAt_none hr] at hi
    rw [claimedAt_none (h.keys hr), claimedAt_none hr, le_antisymm hi (hd i), add_zero]
  | some r =>
    have hr' : getAllocation s' u l i = some (r.draw (d i)) := by
      rw [h.record, hr]
      rfl
    rw [claimedAt_of hr', claimedAt_of hr, draw_claimedAmount r (hd i)]

end

theorem Draws.others (h : Draws u l d s s') (hk : (u', l') ≠ (u, l)) (now : Nat) :
    (sumClaimable now u' l' s' : Outcome ε Int) = sumClaimable now u' l' s := by
  have hturn : (addClaimable (getHoldWindow s') now u' l' s' : Int → Nat → Outcome ε Int) =
      addClaimable (getHoldWindow s) now u' l' s := by
    funext total i
    rw [addClaimable, h.frame hk, h.holdWindow, addClaimable]
  rw [sumClaimable, h.nonce, hturn, sumClaimable]

theorem takeAllocation_ok
    (h : (takeAllocation u l i r m s : Outcome ε (Int × State)) = .ok (m', s'))
    (hr : getAllocation s u l i = some r) (hm : 0 < m) (ha : 0 ≤ r.amount - r.claimedAmount) :
    m' = m - min m (r.amount - r.claimedAmount) ∧
      Draws u l (fun j => if j = i then min m (r.amount - r.claimedAmount) else 0) s s' := by
  unfold takeAllocation at h
  obtain ⟨_, hv, h⟩ := bind_ok.mp h
  obtain ⟨_, rfl⟩ := i128Sub_ok.mp hv
  split at h
  · rename_i hpos
    simp only [bind_ok, i128Add_ok, i128Sub_ok, pure_ok, Prod.mk.injEq] at h
    obtain ⟨_, ⟨_, rfl⟩, _, ⟨_, rfl⟩, rfl, rfl⟩ := h
    refine ⟨rfl, ?_⟩
    have hdraw := Draws.put hr (min m (r.amount - r.claimedAmount))
    rwa [AllocationRecord.draw, if_pos (lt_min hm hpos)] at hdraw
  · rename_i hpos
    cases pure_ok.mp h
    have hz : min m (r.amount - r.claimedAmount) = 0 := by omega
    rw [hz, sub_zero]
    exact ⟨rfl, .of_zero fun j => ite_self 0⟩

theorem consumeAllocation_ok
    (h : (consumeAllocation w now u l (m, s) i : Outcome ε (Int × State)) = .ok (m', s'))
    (hm : 0 ≤ m) (ha : 0 ≤ availableAt w now s u l i) :
    m' = m - min m (availableAt w now s u l i) ∧
      Draws u l (fun j => if j = i then min m (availableAt w now s u l i) else 0) s s' := by
  have skip (hz : min m (availableAt w now s u l i) = 0) (he : (m, s) = (m', s')) :
      m' = m - min m (availableAt w now s u l i) ∧
        Draws u l (fun j => if j = i then min m (availableAt w now s u l i) else 0) s s' := by
    cases he
    rw [hz, sub_zero]
    exact ⟨rfl, .of_zero fun j => ite_self 0⟩
  unfold consumeAllocation at h
  split at h
  · rename_i hpos
    dsimp only at h hpos
    split at h
    · rename_i r hr
      rw [availableAt_of hr] at ha skip ⊢
      obtain ⟨b, hb, h⟩ := bind_ok.mp h
      split at h
      · rename_i ht
        have hv : r.available w now = r.amount - r.claimedAmount :=
          if_pos ((eligible_ok hb).mp ht)
        rw [hv] at ha ⊢
        exact takeAllocation_ok h hr hpos ha
      · rename_i ht
        have hv : r.available w now = 0 := if_neg (mt (eligible_ok hb).mpr ht)
        exact skip (by rw [hv, min_eq_right hm]) (pure_ok.mp h)
    · rename_i hr
      exact skip (by rw [availableAt_none hr, min_eq_right hm]) (pure_ok.mp h)
  · rename_i hpos
    have hz : m = 0 := le_antisymm (not_lt.mp hpos) hm
    exact skip (by rw [hz, min_eq_left ha]) (pure_ok.mp h)

/-- The loop drains the records in the order of their ids. -/
theorem consume_ok (hn : 0 ≤ n) (ha : ∀ i, 0 ≤ availableAt w now s u l i)
    (h : (List.range k).foldlM (consumeAllocation w now u l) (n, s) =
      (.ok (m, s') : Outcome ε (Int × State))) :
    m = remaining (availableAt w now s u l) n k ∧
      Draws u l (fun i => if i < k then drawn (availableAt w now s u l) n i else 0) s s' := by
  induction k generalizing m s' with
  | zero =>
    cases pure_ok.mp h
    exact ⟨rfl, .of_zero fun i => rfl⟩
  | succ k ih =>
    obtain ⟨⟨m₁, s₁⟩, h₁, h₂⟩ := foldlM_range_succ.mp h
    obtain ⟨rfl, hd₁⟩ := ih h₁
    have hk : getAllocation s₁ u l k = getAllocation s u l k := by
      rw [hd₁.record, if_neg (lt_irrefl k)]
      exact Option.map_id'
    have hv : availableAt w now s₁ u l k = availableAt w now s u l k := availableAt_congr hk
    obtain ⟨rfl, hd₂⟩ := consumeAllocation_ok h₂ (remaining_nonneg hn k) (hv ▸ ha k)
    rw [hv] at hd₂ ⊢
    refine ⟨rfl, (hd₁.trans hd₂ fun i => ?_).congr fun i => ?_⟩
    · by_cases hi : i < k
      · exact .inr (if_neg hi.ne)
      · exact .inl (if_neg hi)
    · rcases lt_trichotomy i k with hi | rfl | hi
      · rw [if_pos (hi.trans k.lt_succ_self), if_pos hi, if_neg hi.ne, add_zero]
      · rw [if_pos i.lt_succ_self, if_neg (lt_irrefl i), if_pos rfl, zero_add]
        rfl
      · rw [if_neg (not_lt.mpr hi), if_neg hi.not_gt, if_neg hi.ne', add_zero]

end Shelterflex.WhistleblowerRewards
