import Shelterflex.Lib.Store
import Mathlib.Data.Set.Card
import Mathlib.Tactic.Ring
import Mathlib.Tactic.Linarith

namespace Lib
set_option autoImplicit true

/-- Accounts that earn from one shared index, each in proportion to its share. -/
@[ext]
structure RewardIndex (α : Type) where
  share : α → ℤ
  snapshot : α → ℤ
  banked : α → ℤ
  index : ℤ

namespace RewardIndex

/-- What an account can still draw, in units of one part in `scale`. -/
def owed (scale : ℤ) (L : RewardIndex α) (a : α) : ℤ :=
  L.banked a * scale + L.share a * (L.index - L.snapshot a)

/-- What an account can draw at once, in whole units. -/
def claimable (scale : ℤ) (L : RewardIndex α) (a : α) : ℤ :=
  L.banked a + L.share a * (L.index - L.snapshot a) / scale

/-- What is rounded away when an account draws. -/
def residue (scale : ℤ) (L : RewardIndex α) (a : α) : ℤ :=
  L.share a * (L.index - L.snapshot a) % scale

noncomputable def potential (scale : ℤ) (L : RewardIndex α) : ℤ := ∑ᶠ a, L.owed scale a

/-- The number of accounts that have a share. -/
noncomputable def holders (L : RewardIndex α) : ℕ := L.share.support.ncard

structure WellFormed (L : RewardIndex α) : Prop where
  share_nonneg : ∀ a, 0 ≤ L.share a
  banked_nonneg : ∀ a, 0 ≤ L.banked a
  snapshot_le : ∀ a, L.snapshot a ≤ L.index
  share_finite : L.share.support.Finite
  banked_finite : L.banked.support.Finite

theorem WellFormed.accrued_nonneg {L : RewardIndex α} (h : L.WellFormed) (a : α) :
    0 ≤ L.share a * (L.index - L.snapshot a) :=
  mul_nonneg (h.share_nonneg a) (by have := h.snapshot_le a; omega)

theorem WellFormed.claimable_nonneg {L : RewardIndex α} (h : L.WellFormed) (hs : 0 < scale)
    (a : α) : 0 ≤ L.claimable scale a :=
  add_nonneg (h.banked_nonneg a) (Int.ediv_nonneg (h.accrued_nonneg a) hs.le)

theorem WellFormed.owed_finite {L : RewardIndex α} (h : L.WellFormed) (scale : ℤ) :
    (L.owed scale).support.Finite := by
  apply (h.share_finite.union h.banked_finite).subset
  intro a ha
  by_contra hn
  simp only [Set.mem_union, Function.mem_support, not_or, not_not] at hn
  exact ha (by simp [owed, hn.1, hn.2])

theorem WellFormed.claimable_finite {L : RewardIndex α} (h : L.WellFormed) (scale : ℤ) :
    (L.claimable scale).support.Finite := by
  apply (h.share_finite.union h.banked_finite).subset
  intro a ha
  by_contra hn
  simp only [Set.mem_union, Function.mem_support, not_or, not_not] at hn
  exact ha (by simp [claimable, hn.1, hn.2])

theorem residue_nonneg (hs : 0 < scale) (L : RewardIndex α) (a : α) : 0 ≤ L.residue scale a :=
  Int.emod_nonneg _ hs.ne'

theorem residue_lt (hs : 0 < scale) (L : RewardIndex α) (a : α) : L.residue scale a < scale :=
  Int.emod_lt_of_pos _ hs

theorem residue_of_current {L : RewardIndex α} (h : L.snapshot a = L.index) :
    L.residue scale a = 0 := by
  rw [residue, h, sub_self, mul_zero, Int.zero_emod]

theorem owed_eq (scale : ℤ) (L : RewardIndex α) (a : α) :
    L.owed scale a = L.claimable scale a * scale + L.residue scale a := by
  rw [owed, claimable, residue, add_mul, add_assoc, Int.ediv_mul_add_emod]

theorem claimable_mul_le (hs : 0 < scale) (L : RewardIndex α) (a : α) :
    L.claimable scale a * scale ≤ L.owed scale a := by
  rw [owed_eq]
  exact le_add_of_nonneg_right (residue_nonneg hs L a)

theorem WellFormed.owed_nonneg {L : RewardIndex α} (h : L.WellFormed) (hs : 0 < scale) (a : α) :
    0 ≤ L.owed scale a :=
  add_nonneg (mul_nonneg (h.banked_nonneg a) hs.le) (h.accrued_nonneg a)

theorem WellFormed.owed_le {L : RewardIndex α} (h : L.WellFormed) (hs : 0 < scale) (a : α) :
    L.owed scale a ≤ L.potential scale :=
  le_finsum (h.owed_finite scale) (h.owed_nonneg hs) a

theorem WellFormed.sum_claimable_mul_le {L : RewardIndex α} (h : L.WellFormed) (hs : 0 < scale) :
    (∑ᶠ a, L.claimable scale a) * scale ≤ L.potential scale := by
  rw [finsum_mul, potential]
  apply finsum_le_finsum' _ (h.owed_finite scale) fun a => claimable_mul_le hs L a
  exact (h.claimable_finite scale).subset (Function.support_mul_subset_left _ _)

theorem WellFormed.sum_view_mul_le {L : RewardIndex α} (h : L.WellFormed) (hs : 0 < scale)
    {v : α → ℤ} (hv : ∀ a, v a = 0 ∨ v a = L.claimable scale a) :
    (∑ᶠ a, v a) * scale ≤ L.potential scale := by
  have hfin : v.support.Finite := by
    apply (h.claimable_finite scale).subset
    intro a ha hz
    exact ha ((hv a).elim id fun he => he.trans hz)
  have hle : ∑ᶠ a, v a ≤ ∑ᶠ a, L.claimable scale a := by
    apply finsum_le_finsum' hfin (h.claimable_finite scale)
    intro a
    rcases hv a with he | he
    · exact he ▸ h.claimable_nonneg hs a
    · exact he.le
  exact (mul_le_mul_of_nonneg_right hle hs.le).trans (h.sum_claimable_mul_le hs)

theorem residue_support_subset (scale : ℤ) (L : RewardIndex α) :
    (L.residue scale).support ⊆ L.share.support := by
  intro a ha hz
  apply ha
  rw [residue, hz, zero_mul, Int.zero_emod]

/-- What cannot be drawn yet is less than one unit for each account that has a share. -/
theorem WellFormed.potential_le {L : RewardIndex α} (h : L.WellFormed) (hs : 0 < scale) :
    L.potential scale ≤ (∑ᶠ a, L.claimable scale a) * scale + L.holders * scale := by
  have hsub := residue_support_subset scale L
  have hc : (fun a => L.claimable scale a * scale).support.Finite :=
    (h.claimable_finite scale).subset (Function.support_mul_subset_left _ _)
  have hp : L.potential scale =
      (∑ᶠ a, L.claimable scale a) * scale + ∑ᶠ a, L.residue scale a := by
    rw [potential, finsum_congr (L.owed_eq scale),
      finsum_add_distrib hc (h.share_finite.subset hsub), finsum_mul]
  have hr : ∑ᶠ a, L.residue scale a ≤ L.holders * scale := by
    rw [finsum_eq_sum_of_support_subset (s := h.share_finite.toFinset) _
      (by rwa [Set.Finite.coe_toFinset]), holders, Set.ncard_eq_toFinset_card _ h.share_finite,
      ← nsmul_eq_mul]
    exact Finset.sum_le_card_nsmul _ _ _ fun a _ => (residue_lt hs L a).le
  rw [hp]
  exact add_le_add_right hr _

theorem potential_change {L : RewardIndex α} (h : L.WellFormed) (scale : ℤ) (L' : RewardIndex α)
    (a : α)
    (ho : ∀ b, b ≠ a → L'.owed scale b = L.owed scale b) :
    L'.potential scale = L.potential scale - L.owed scale a + L'.owed scale a :=
  finsum_change (h.owed_finite scale) a ho

def raise (L : RewardIndex α) (d : ℤ) : RewardIndex α := { L with index := L.index + d }

theorem WellFormed.raise {L : RewardIndex α} (h : L.WellFormed) (hd : 0 ≤ d) :
    (L.raise d).WellFormed :=
  { h with
    snapshot_le := fun a => by
      have hs := h.snapshot_le a
      simp only [RewardIndex.raise]
      omega }

theorem potential_raise {L : RewardIndex α} (h : L.WellFormed) (d : ℤ) :
    (L.raise d).potential scale = L.potential scale + (∑ᶠ a, L.share a) * d := by
  have he : (L.raise d).owed scale = fun a => L.owed scale a + L.share a * d := by
    funext a
    simp only [owed, raise]
    ring
  have hf : (fun a => L.share a * d).support.Finite :=
    h.share_finite.subset (Function.support_mul_subset_left _ _)
  rw [potential, he, finsum_add_distrib (h.owed_finite scale) hf, potential, finsum_mul]

theorem potential_raise_le {L : RewardIndex α} (h : L.WellFormed)
    (hd : (∑ᶠ a, L.share a) * d ≤ scale * amount) :
    (L.raise d).potential scale ≤ L.potential scale + scale * amount := by
  rw [potential_raise h]
  exact add_le_add_right hd _

/-- Shares that change only where everything earned has been settled leave the potential alone. -/
theorem potential_reshare {L L' : RewardIndex α} (hb : L'.banked = L.banked)
    (hs : L'.snapshot = L.snapshot) (hi : L'.index = L.index)
    (h : ∀ a, L'.share a = L.share a ∨ L.snapshot a = L.index) :
    L'.potential scale = L.potential scale := by
  apply finsum_congr
  intro a
  rw [owed, owed, hb, hs, hi]
  rcases h a with he | he
  · rw [he]
  · rw [he, sub_self, mul_zero, mul_zero]

section
variable [DecidableEq α]

/-- Bank what an account earned since its snapshot. -/
def settle (scale : ℤ) (L : RewardIndex α) (a : α) : RewardIndex α :=
  { L with
    banked := Function.update L.banked a (L.claimable scale a)
    snapshot := Function.update L.snapshot a L.index }

def setShare (L : RewardIndex α) (a : α) (n : ℤ) : RewardIndex α :=
  { L with share := Function.update L.share a n }

def withdraw (L : RewardIndex α) (a : α) (x : ℤ) : RewardIndex α :=
  { L with banked := Function.update L.banked a (L.banked a - x) }

theorem WellFormed.settle {L : RewardIndex α} (h : L.WellFormed) (hs : 0 < scale) (a : α) :
    (L.settle scale a).WellFormed where
  share_nonneg := h.share_nonneg
  banked_nonneg b := by
    by_cases he : b = a
    · simpa [RewardIndex.settle, he] using h.claimable_nonneg hs a
    · simpa [RewardIndex.settle, Function.update_of_ne he] using h.banked_nonneg b
  snapshot_le b := by
    by_cases he : b = a
    · simp [RewardIndex.settle, he]
    · simpa [RewardIndex.settle, Function.update_of_ne he] using h.snapshot_le b
  share_finite := h.share_finite
  banked_finite := change_support_finite h.banked_finite a fun _ hi => Function.update_of_ne hi _ _

theorem WellFormed.setShare {L : RewardIndex α} (h : L.WellFormed) (a : α) (hn : 0 ≤ n) :
    (L.setShare a n).WellFormed where
  share_nonneg b := by
    by_cases he : b = a
    · simpa [RewardIndex.setShare, he] using hn
    · simpa [RewardIndex.setShare, Function.update_of_ne he] using h.share_nonneg b
  banked_nonneg := h.banked_nonneg
  snapshot_le := h.snapshot_le
  share_finite := change_support_finite h.share_finite a fun _ hi => Function.update_of_ne hi _ _
  banked_finite := h.banked_finite

theorem WellFormed.withdraw {L : RewardIndex α} (h : L.WellFormed) (a : α)
    (hx : x ≤ L.banked a) : (L.withdraw a x).WellFormed :=
  { h with
    banked_nonneg := fun b => by
      by_cases he : b = a
      · simpa [RewardIndex.withdraw, he] using hx
      · simpa [RewardIndex.withdraw, Function.update_of_ne he] using h.banked_nonneg b
    banked_finite :=
      change_support_finite h.banked_finite a fun _ hi => Function.update_of_ne hi _ _ }

theorem settle_of_current {L : RewardIndex α} (h : L.snapshot a = L.index) :
    L.settle scale a = L := by
  ext b
  · rfl
  · by_cases he : b = a
    · simp [settle, he, h]
    · simp [settle, Function.update_of_ne he]
  · by_cases he : b = a
    · simp [settle, claimable, he, h]
    · simp [settle, Function.update_of_ne he]
  · rfl

theorem settle_snapshot (scale : ℤ) (L : RewardIndex α) (a : α) :
    (L.settle scale a).snapshot a = L.index := Function.update_self ..

theorem settle_current {L : RewardIndex α} (h : L.snapshot b = L.index) (scale : ℤ) (a : α) :
    (L.settle scale a).snapshot b = L.index := by
  by_cases he : b = a
  · exact he ▸ settle_snapshot scale L a
  · exact (Function.update_of_ne he _ _).trans h

theorem settle_owed (scale : ℤ) (L : RewardIndex α) (a : α) :
    (L.settle scale a).owed scale a = L.claimable scale a * scale := by
  simp [owed, settle]

theorem potential_settle_eq {L : RewardIndex α} (h : L.WellFormed) (scale : ℤ) (a : α) :
    (L.settle scale a).potential scale = L.potential scale - L.residue scale a := by
  have hc := potential_change h scale (L.settle scale a) a fun b hb => by
    simp [owed, settle, Function.update_of_ne hb]
  rw [hc, settle_owed, owed_eq]
  ring

theorem potential_settle {L : RewardIndex α} (h : L.WellFormed) (hs : 0 < scale)
    (a : α) : (L.settle scale a).potential scale ≤ L.potential scale := by
  rw [potential_settle_eq h]
  exact sub_le_self _ (residue_nonneg hs L a)

theorem settleAll_spec {L : RewardIndex α} (h : L.WellFormed) (hs : 0 < scale) (as : List α) :
    (as.foldl (settle scale) L).WellFormed ∧
      (as.foldl (settle scale) L).index = L.index ∧
      (as.foldl (settle scale) L).potential scale ≤ L.potential scale ∧
      ∀ b, b ∈ as ∨ L.snapshot b = L.index → (as.foldl (settle scale) L).snapshot b = L.index := by
  induction as generalizing L with
  | nil => exact ⟨h, rfl, le_rfl, fun b hb => hb.resolve_left List.not_mem_nil⟩
  | cons a as ih =>
    obtain ⟨h₁, h₂, h₃, h₄⟩ := ih (h.settle hs a)
    refine ⟨h₁, h₂, h₃.trans (potential_settle h hs a), fun b hb => h₄ b ?_⟩
    rcases hb with hb | hb
    · rcases List.mem_cons.mp hb with rfl | hb
      · exact .inr (settle_snapshot scale L b)
      · exact .inl hb
    · exact .inr (settle_current hb scale a)

theorem potential_setShare {L : RewardIndex α} (h : L.WellFormed) (scale : ℤ)
    (hs : L.snapshot a = L.index) (n : ℤ) :
    (L.setShare a n).potential scale = L.potential scale := by
  have hc := potential_change h scale (L.setShare a n) a fun b hb => by
    simp [owed, setShare, Function.update_of_ne hb]
  simp only [owed, setShare, hs, sub_self, mul_zero] at hc ⊢
  omega

theorem potential_withdraw {L : RewardIndex α} (h : L.WellFormed) (scale : ℤ) (a : α) (x : ℤ) :
    (L.withdraw a x).potential scale = L.potential scale - x * scale := by
  have hc := potential_change h scale (L.withdraw a x) a fun b hb => by
    simp [owed, withdraw, Function.update_of_ne hb]
  have he : (L.withdraw a x).owed scale a = L.owed scale a - x * scale := by
    simp only [owed, withdraw, Function.update_self]
    ring
  omega

/-- Settle an account, then change its share and pay from what it has banked. -/
def write (scale : ℤ) (L : RewardIndex α) (a : α) (n x : ℤ) : RewardIndex α :=
  ((L.settle scale a).setShare a n).withdraw a x

theorem write_share (L : RewardIndex α) (a : α) (n : ℤ) :
    (L.settle scale a).setShare a n = L.write scale a n 0 := by
  simp only [write, withdraw, sub_zero, Function.update_eq_self]

theorem write_withdraw (L : RewardIndex α) (a : α) (x : ℤ) :
    (L.settle scale a).withdraw a x = L.write scale a (L.share a) x := by
  simp only [write, setShare, withdraw, settle, Function.update_eq_self]

theorem write_settle (L : RewardIndex α) (a : α) :
    L.settle scale a = L.write scale a (L.share a) 0 := by
  simp only [← write_share, setShare, settle, Function.update_eq_self]

theorem claimable_write (L : RewardIndex α) (a : α) (n x : ℤ) :
    (L.write scale a n x).claimable scale =
      Function.update (L.claimable scale) a (L.claimable scale a - x) := by
  funext b
  by_cases he : b = a
  · subst he
    simp only [write, withdraw, setShare, settle, claimable, Function.update_self, sub_self,
      mul_zero, Int.zero_ediv, add_zero]
  · simp only [write, withdraw, setShare, settle, claimable, Function.update_of_ne he]

theorem WellFormed.write {L : RewardIndex α} (h : L.WellFormed) (hs : 0 < scale) (a : α)
    (hn : 0 ≤ n) (hx : x ≤ L.claimable scale a) : (L.write scale a n x).WellFormed := by
  apply ((h.settle hs a).setShare a hn).withdraw a
  simpa [RewardIndex.setShare, RewardIndex.settle] using hx

theorem potential_write_eq {L : RewardIndex α} (h : L.WellFormed) (hs : 0 < scale) (a : α)
    (hn : 0 ≤ n) (x : ℤ) : (L.write scale a n x).potential scale + scale * x =
      L.potential scale - L.residue scale a := by
  have hw := h.settle hs a
  have h₂ := potential_setShare hw scale (a := a) (by simp [settle]) n
  have h₃ := potential_withdraw (hw.setShare a hn) scale a x
  rw [write, h₃, h₂, potential_settle_eq h]
  ring

theorem potential_write {L : RewardIndex α} (h : L.WellFormed) (hs : 0 < scale) (a : α)
    (hn : 0 ≤ n) (x : ℤ) :
    (L.write scale a n x).potential scale + scale * x ≤ L.potential scale := by
  rw [potential_write_eq h hs a hn]
  exact sub_le_self _ (residue_nonneg hs L a)

theorem holders_write_le {L : RewardIndex α} (h : L.WellFormed) (scale : ℤ) (a : α) (n x : ℤ) :
    (L.write scale a n x).holders ≤ L.holders + if L.share a = 0 then 1 else 0 := by
  have hshare : (L.write scale a n x).share = Function.update L.share a n := rfl
  have hsub : (L.write scale a n x).share.support ⊆ insert a L.share.support := by
    rw [hshare]
    intro b hb
    by_cases he : b = a
    · exact Set.mem_insert_iff.mpr (.inl he)
    · rw [Function.mem_support, Function.update_of_ne he] at hb
      exact Set.mem_insert_of_mem a hb
  have hle := Set.ncard_le_ncard hsub (h.share_finite.insert a)
  split
  · exact hle.trans (Set.ncard_insert_le a _)
  · rename_i hz
    rwa [Set.insert_eq_of_mem (Function.mem_support.mpr hz)] at hle

/-- A write of one account loses less than a unit, and nothing where the account had no share. -/
theorem write_cost_le {L : RewardIndex α} (h : L.WellFormed) (hs : 0 < scale) (a : α)
    (n x : ℤ) : L.residue scale a + scale * (L.write scale a n x).holders ≤
      scale * L.holders + scale := by
  have hle := holders_write_le h scale a n x
  split at hle
  · rename_i hz
    have hr : L.residue scale a = 0 := by rw [residue, hz, zero_mul, Int.zero_emod]
    have hm : scale * ((L.write scale a n x).holders : ℤ) ≤ scale * (L.holders + 1) :=
      mul_le_mul_of_nonneg_left (by exact_mod_cast hle) hs.le
    rw [hr]
    linarith
  · have hm : scale * ((L.write scale a n x).holders : ℤ) ≤ scale * L.holders :=
      mul_le_mul_of_nonneg_left (by exact_mod_cast hle) hs.le
    have hr := residue_lt hs L a
    linarith

theorem sum_share_write {L : RewardIndex α} (h : L.WellFormed) (scale : ℤ) (a : α) (n x : ℤ) :
    ∑ᶠ b, (L.write scale a n x).share b = ∑ᶠ b, L.share b - L.share a + n := by
  have hc := finsum_change (g := (L.write scale a n x).share) h.share_finite a fun b hb => by
    simp [write, withdraw, setShare, settle, Function.update_of_ne hb]
  simpa [write, withdraw, setShare] using hc

end

end RewardIndex

end Lib
