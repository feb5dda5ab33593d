import Shelterflex.Lib.Expiring
import Shelterflex.Lib.Machine

/-! Entries that are kept by being used. -/

namespace Lib
set_option autoImplicit true

/-- A use of an entry that has at most `threshold` ticks left extends its life by `extendTo` ticks
from then, and a new entry has `lifetime` ticks. An entry whose life is over is archived, or
gone. -/
structure Retention where
  threshold : Nat
  extendTo : Nat
  lifetime : Nat
  archives : Bool

inductive Access (κ ν : Type) where
  | get (k : κ)
  | has (k : κ)
  | extend (k : κ)
  | set (k : κ) (v : ν)
  | remove (k : κ)
deriving DecidableEq

namespace Access

def key : Access κ ν → κ
  | get k | has k | extend k | set k _ | remove k => k

/-- An access that keeps an entry as it is, and may extend its life. -/
def Uses (k : κ) : Access κ ν → Prop
  | get j | has j | extend j => j = k
  | set _ _ | remove _ => False

theorem Uses.key {a : Access κ ν} (h : a.Uses k) : a.key = k := by
  cases a with
  | get _ | has _ | extend _ => exact h
  | set _ _ | remove _ => cases h

end Access

inductive Answer (ν : Type) where
  | unit
  | value (v : Option ν)
  | present (b : Bool)
deriving DecidableEq

abbrev Accesses (κ ν : Type) := List (Event (Expiring κ ν) (Nat × Access κ ν) (Answer ν))

/-- An entry was written, and each of its uses since then, and `now`, came at most `gap` ticks after
the one before. -/
inductive Kept (gap : Nat) (k : κ) (v : ν) : Nat → Accesses κ ν → Prop where
  | set (hi : e.input.2 = .set k v) (hgap : now ≤ e.input.1 + gap) : Kept gap k v now (e :: t)
  | use (hi : e.input.2.Uses k) (hgap : now ≤ e.input.1 + gap) (h : Kept gap k v e.input.1 t) :
      Kept gap k v now (e :: t)
  | other (hi : e.input.2.key ≠ k) (h : Kept gap k v now t) : Kept gap k v now (e :: t)

section
variable [DecidableEq κ]

/-- The ticks at which an entry was accessed, latest first. -/
def touches (k : κ) (t : Accesses κ ν) : List Nat :=
  (t.filter fun e => e.input.2.key = k).map fun e => e.input.1

theorem touches_cons_of {e : Event (Expiring κ ν) (Nat × Access κ ν) (Answer ν)}
    (h : e.input.2.key = k) (t : Accesses κ ν) : touches k (e :: t) = e.input.1 :: touches k t := by
  rw [touches, List.filter_cons, if_pos (decide_eq_true h)]
  rfl

theorem touches_sublist (k : κ) (e : Event (Expiring κ ν) (Nat × Access κ ν) (Answer ν))
    (t : Accesses κ ν) : (touches k t).Sublist (touches k (e :: t)) :=
  ((List.sublist_cons_self e t).filter _).map _

namespace Retention
variable (r : Retention)

/-- An entry can be reached unless it is archived. -/
def Reaches (now : Nat) (k : κ) (m : Expiring κ ν) : Prop :=
  r.archives = true → (m.get k).all (now ≤ ·.liveUntil) = true

instance (now : Nat) (k : κ) (m : Expiring κ ν) : Decidable (r.Reaches now k m) :=
  inferInstanceAs (Decidable (_ → _))

def refresh (now : Nat) (k : κ) (m : Expiring κ ν) : Expiring κ ν :=
  m.extend now r.threshold r.extendTo k

def respond (now : Nat) (m : Expiring κ ν) : Access κ ν → Expiring κ ν × Answer ν
  | .get k => (r.refresh now k m, .value (m.read now k))
  | .has k => (r.refresh now k m, .present (m.read now k).isSome)
  | .extend k => (r.refresh now k m, .unit)
  | .set k v => (r.refresh now k (m.write now r.lifetime k v), .unit)
  | .remove k => (m.remove k, .unit)

def access (now : Nat) (m : Expiring κ ν) (a : Access κ ν) :
    Option (Expiring κ ν × Answer ν) :=
  if r.Reaches now a.key m then some (r.respond now m a) else none

def machine : Machine (Expiring κ ν) (Nat × Access κ ν) (Answer ν) :=
  ⟨fun m i => r.access i.1 m i.2⟩

/-- The life that a new entry starts with. -/
def start : Nat := if r.lifetime ≤ r.threshold then r.extendTo else r.lifetime

structure Sound : Prop where
  threshold : r.threshold < r.extendTo
  lifetime : r.lifetime ≤ r.extendTo

theorem Sound.start_bounds {r : Retention} (h : r.Sound) :
    r.threshold < r.start ∧ r.start ≤ r.extendTo := by
  unfold start
  split
  · exact ⟨h.threshold, le_rfl⟩
  · rename_i hl
    exact ⟨not_le.mp hl, h.lifetime⟩

theorem respond_get_of_ne {a : Access κ ν} (h : a.key ≠ k) (now : Nat) (m : Expiring κ ν) :
    (r.respond now m a).1.get k = m.get k := by
  have hrefresh (m : Expiring κ ν) : (r.refresh now a.key m).get k = m.get k := by
    unfold refresh Expiring.extend
    split
    · exact Store.get_set_of_ne _ _ h.symm
    · rfl
  cases a with
  | get _ | has _ | extend _ => exact hrefresh m
  | set j v => exact (hrefresh _).trans (Store.get_set_of_ne _ _ h.symm)
  | remove j => exact Store.get_remove_of_ne _ h.symm

theorem refresh_get {m : Expiring κ ν} (h : m.get k = some e) (hlive : now ≤ e.liveUntil) :
    (r.refresh now k m).get k = some (e.extend now r.threshold r.extendTo) := by
  rw [refresh, Expiring.extend, Expiring.live_some.mpr ⟨h, hlive⟩]
  exact Store.get_set_self _ _ _

theorem respond_use {a : Access κ ν} {m : Expiring κ ν} (hu : a.Uses k) (h : m.get k = some e)
    (hlive : now ≤ e.liveUntil) :
    (r.respond now m a).1.get k = some (e.extend now r.threshold r.extendTo) := by
  cases a with
  | get j | has j | extend j =>
    cases hu
    exact r.refresh_get h hlive
  | set _ _ | remove _ => cases hu

theorem respond_set (m : Expiring κ ν) (now : Nat) (k : κ) (v : ν) :
    ∃ mark, (r.respond now m (.set k v)).1.get k =
        some (Lease.extend ⟨v, mark⟩ now r.threshold r.extendTo) ∧
      (mark = now + r.lifetime ∨ ∃ e, m.get k = some e ∧ e.liveUntil = mark ∧ now ≤ mark) := by
  have hw (mark) (h : m.write now r.lifetime k v = m.set k ⟨v, mark⟩) (hle : now ≤ mark) :
      (r.respond now m (.set k v)).1.get k =
        some (Lease.extend ⟨v, mark⟩ now r.threshold r.extendTo) := by
    apply r.refresh_get _ hle
    rw [h]
    exact Store.get_set_self _ _ _
  cases hl : m.live now k with
  | none =>
    refine ⟨now + r.lifetime, hw _ ?_ (Nat.le_add_right _ _), .inl rfl⟩
    rw [Expiring.write, hl]
    rfl
  | some e =>
    obtain ⟨he, hle⟩ := Expiring.live_some.mp hl
    refine ⟨e.liveUntil, hw _ ?_ hle, .inr ⟨e, he, rfl, hle⟩⟩
    rw [Expiring.write, hl]
    rfl

theorem access_some {m : Expiring κ ν} {a : Access κ ν} :
    r.access now m a = some (m', o) ↔ r.Reaches now a.key m ∧ r.respond now m a = (m', o) := by
  rw [access, Option.ite_none_right_eq_some, Option.some.injEq]

theorem lasts_iff_get {m : Expiring κ ν} :
    m.Lasts k v now ↔ ∃ m', r.access now m (.get k) = some (m', .value (some v)) := by
  constructor
  · intro h
    refine ⟨r.refresh now k m, r.access_some.mpr ⟨?_, ?_⟩⟩
    · obtain ⟨e, he, _, hle⟩ := h
      intro _
      change (m.get k).all _ = true
      rw [he]
      exact decide_eq_true hle
    · rw [respond, h.read le_rfl]
  · rintro ⟨m', h⟩
    have hread : m.read now k = some v := Answer.value.inj (Prod.mk.inj (r.access_some.mp h).2).2
    obtain ⟨e, he, hv⟩ := Option.map_eq_some_iff.mp hread
    obtain ⟨hget, hle⟩ := Expiring.live_some.mp he
    exact ⟨e, hget, hv, hle⟩

theorem run_uncons {e : Event (Expiring κ ν) (Nat × Access κ ν) (Answer ν)}
    (h : r.machine.Run m₀ (e :: t) m) :
    r.machine.Run m₀ t e.pre ∧ m = (r.respond e.input.1 e.pre e.input.2).1 := by
  obtain ⟨hr, hs, rfl⟩ := h.uncons
  exact ⟨hr, (congrArg Prod.fst (r.access_some.mp hs).2).symm⟩

theorem machine_kept {m₀ m : Expiring κ ν} (hs : r.threshold < r.extendTo)
    (h : r.machine.Run m₀ t m) (hk : Kept (r.threshold + 1) k v now t) : m.Lasts k v now := by
  induction hk generalizing m with
  | @set now e t hi hgap =>
    obtain ⟨_, rfl⟩ := r.run_uncons h
    rw [hi]
    obtain ⟨mark, hget, _⟩ := r.respond_set e.pre e.input.1 k v
    exact ⟨_, hget, Lease.extend_value .., hgap.trans (Lease.lt_extend hs ..)⟩
  | @use now e t hi hgap _ ih =>
    obtain ⟨hr, rfl⟩ := r.run_uncons h
    obtain ⟨l, hl, rfl, hle⟩ := ih hr
    exact ⟨_, r.respond_use hi hl hle, Lease.extend_value .., hgap.trans (Lease.lt_extend hs ..)⟩
  | @other now e t hi _ ih =>
    obtain ⟨hr, rfl⟩ := r.run_uncons h
    exact (ih hr).of_get (r.respond_get_of_ne hi _ _)

theorem respond_mark (hr : r.Sound) {m : Expiring κ ν} {a : Access κ ν}
    (h : (r.respond now m a).1.get k = some l') :
    (a.key = k ∧ l'.liveUntil ≤ now + r.extendTo) ∨
      ∃ l, m.get k = some l ∧ l'.liveUntil = l.liveUntil := by
  by_cases hk : a.key = k
  · subst hk
    have hrefresh (h : (r.refresh now a.key m).get a.key = some l') :
        l'.liveUntil ≤ now + r.extendTo ∨
          ∃ l, m.get a.key = some l ∧ l'.liveUntil = l.liveUntil := by
      cases hl : m.live now a.key with
      | none =>
        rw [refresh, Expiring.extend, hl] at h
        exact .inr ⟨l', h, rfl⟩
      | some l =>
        obtain ⟨hget, hle⟩ := Expiring.live_some.mp hl
        cases (r.refresh_get hget hle).symm.trans h
        rcases l.extend_liveUntil now r.threshold r.extendTo with he | he
        · exact .inr ⟨l, hget, he⟩
        · exact .inl he.le
    cases a with
    | get j | has j | extend j => exact (hrefresh h).imp_left fun hle => ⟨rfl, hle⟩
    | set j v =>
      obtain ⟨mark, hget, hmark⟩ := r.respond_set m now j v
      cases hget.symm.trans h
      rcases Lease.extend_liveUntil ⟨v, mark⟩ now r.threshold r.extendTo with he | he
      · rcases hmark with rfl | ⟨l, hl, rfl, _⟩
        · exact .inl ⟨rfl, he.le.trans (Nat.add_le_add_left hr.lifetime now)⟩
        · exact .inr ⟨l, hl, he⟩
      · exact .inl ⟨rfl, he.le⟩
    | remove j => cases (Store.get_remove_self m j).symm.trans h
  · exact .inr ⟨l', (r.respond_get_of_ne hk now m).symm.trans h, rfl⟩

theorem run_mark (hr : r.Sound) {m : Expiring κ ν} (h : r.machine.Run .empty t m)
    (hk : m.get k = some l) : ∃ n ∈ touches k t, l.liveUntil ≤ n + r.extendTo := by
  refine h.invariant (P := fun t m => ∀ l, m.get k = some l →
    ∃ n ∈ touches k t, l.liveUntil ≤ n + r.extendTo) (fun _ hl => by cases hl) ?_ l hk
  intro t m i m' o ih hs l' hl'
  have hm' : (r.respond i.1 m i.2).1 = m' := congrArg Prod.fst (r.access_some.mp hs).2
  rw [← hm'] at hl'
  rcases r.respond_mark hr hl' with ⟨hk, hle⟩ | ⟨l, hl, he⟩
  · refine ⟨i.1, ?_, hle⟩
    rw [touches_cons_of hk]
    exact List.mem_cons_self
  · obtain ⟨n, hn, hle⟩ := ih l hl
    exact ⟨n, (touches_sublist k _ t).subset hn, he.trans_le hle⟩

/-- The accesses of an entry are far enough apart for each of them to extend its life. -/
def Spaced (k : κ) (t : Accesses κ ν) : Prop :=
  (touches k t).Pairwise fun later earlier => earlier + (r.extendTo - r.threshold) ≤ later

instance (k : κ) (t : Accesses κ ν) : Decidable (r.Spaced k t) :=
  inferInstanceAs (Decidable (List.Pairwise _ _))

theorem spaced_tail {t : Accesses κ ν} (h : r.Spaced k (e :: t)) : r.Spaced k t :=
  h.sublist (touches_sublist k e t)

theorem start_le_extend (v : ν) (now : Nat) :
    now + r.start ≤
      (Lease.extend ⟨v, now + r.lifetime⟩ now r.threshold r.extendTo).liveUntil := by
  unfold start
  split
  · rename_i hl
    apply Lease.target_le_extend
    rwa [Nat.add_sub_cancel_left]
  · exact Lease.le_extend (Lease.mk v (now + r.lifetime)) _ _ _

theorem machine_kept_spaced (hr : r.Sound) {m : Expiring κ ν} (h : r.machine.Run .empty t m)
    (hs : r.Spaced k t) (hk : Kept r.start k v now t) : m.Lasts k v now := by
  -- a mark that is the target ahead of the access before has come within the threshold
  have hreach {e : Event (Expiring κ ν) (Nat × Access κ ν) (Answer ν)} {t : Accesses κ ν} {l}
      (hrun : r.machine.Run .empty t e.pre) (hkey : e.input.2.key = k) (hs : r.Spaced k (e :: t))
      (hl : e.pre.get k = some l) : l.liveUntil - e.input.1 ≤ r.threshold := by
    obtain ⟨n, hn, hle⟩ := r.run_mark hr hrun hl
    rw [Spaced, touches_cons_of hkey] at hs
    have hstep := List.rel_of_pairwise_cons hs hn
    have hlt := hr.threshold
    omega
  have hstart := hr.start_bounds.2
  induction hk generalizing m with
  | @set now e t hi hgap =>
    obtain ⟨hrun, rfl⟩ := r.run_uncons h
    have hkey : e.input.2.key = k := congrArg Access.key hi
    obtain ⟨mark, hget, hmark⟩ := r.respond_set e.pre e.input.1 k v
    rw [hi]
    refine ⟨_, hget, Lease.extend_value .., hgap.trans ?_⟩
    rcases hmark with rfl | ⟨l, hl, rfl, _⟩
    · exact r.start_le_extend v e.input.1
    · have hle := hreach hrun hkey hs hl
      exact (Nat.add_le_add_left hstart _).trans
        (Lease.target_le_extend (e := ⟨v, l.liveUntil⟩) hle)
  | @use now e t hi hgap _ ih =>
    obtain ⟨hrun, rfl⟩ := r.run_uncons h
    obtain ⟨l, hl, rfl, hle⟩ := ih hrun (r.spaced_tail hs)
    refine ⟨_, r.respond_use hi hl hle, Lease.extend_value .., hgap.trans ?_⟩
    exact (Nat.add_le_add_left hstart _).trans
      (Lease.target_le_extend (hreach hrun hi.key hs hl))
  | @other now e t hi _ ih =>
    obtain ⟨hrun, rfl⟩ := r.run_uncons h
    exact (ih hrun (r.spaced_tail hs)).of_get (r.respond_get_of_ne hi _ _)

theorem respond_set_new {m : Expiring κ ν} (h : m.get k = none) (hr : r.Sound) (v : ν) :
    (r.respond 0 m (.set k v)).1.get k = some ⟨v, r.start⟩ := by
  obtain ⟨mark, hget, hmark⟩ := r.respond_set m 0 k v
  rcases hmark with rfl | ⟨l, hl, _⟩
  · rw [hget, Lease.extend, start]
    have hlt := hr.threshold
    have hle := hr.lifetime
    simp only [Nat.zero_add, Nat.sub_zero]
    split
    · rename_i hx
      rw [if_pos hx.2]
    · rename_i hx
      by_cases hl : r.lifetime ≤ r.threshold
      · exact absurd ⟨hl.trans_lt hlt, hl⟩ hx
      · rw [if_neg hl]
  · cases h.symm.trans hl

/-- Written, and read with one tick more than the threshold left: the read is of no use. -/
theorem lapses (hr : r.Sound) (hwide : r.start ≤ 2 * r.threshold + 3)
    (hgap : r.threshold + 2 ≤ gap) (k : κ) (v : ν) :
    ∃ t m now, r.machine.Run .empty t m ∧ Kept gap k v now t ∧ ¬ m.Lasts k v now := by
  have hb := hr.start_bounds
  obtain ⟨n, hn⟩ : ∃ n, r.start = n + (r.threshold + 1) := Nat.exists_eq_add_of_le' hb.1
  let m₁ := (r.respond 0 .empty (.set k v)).1
  have h₁ : m₁.get k = some ⟨v, r.start⟩ := r.respond_set_new rfl hr v
  have hread : r.Reaches n k m₁ := by
    intro _
    rw [h₁]
    exact decide_eq_true (hn ▸ Nat.le_add_right n _)
  have hrun : r.machine.Run .empty [⟨.empty, (0, .set k v), .unit, m₁⟩] m₁ :=
    .commit .start (r.access_some.mpr ⟨fun _ => rfl, rfl⟩)
  have hrun₂ : r.machine.Run .empty [⟨m₁, (n, .extend k), .unit, r.refresh n k m₁⟩,
      ⟨.empty, (0, .set k v), .unit, m₁⟩] (r.refresh n k m₁) :=
    .commit hrun (r.access_some.mpr ⟨hread, rfl⟩)
  refine ⟨_, _, r.start + 1, hrun₂, .use rfl ?_ (.set rfl ?_), ?_⟩
  · change r.start + 1 ≤ n + gap
    omega
  · change n ≤ 0 + gap
    omega
  · rintro ⟨l, hl, _, hle⟩
    have hget := r.refresh_get h₁ (hn ▸ Nat.le_add_right n (r.threshold + 1))
    have hlong : n + r.threshold < r.start := by omega
    rw [Lease.extend_of_lt (l := ⟨v, r.start⟩) hlong] at hget
    cases hget.symm.trans hl
    exact absurd hle (Nat.not_succ_le_self _)

end Retention
end

theorem Kept.mono (h : Kept gap k v now t) (hle : gap ≤ gap') : Kept gap' k v now t := by
  induction h with
  | set hi hgap => exact .set hi (hgap.trans (Nat.add_le_add_left hle _))
  | use hi hgap _ ih => exact .use hi (hgap.trans (Nat.add_le_add_left hle _)) ih
  | other hi _ ih => exact .other hi ih

theorem Retention.kept_iff [DecidableEq κ] (r : Retention) (hr : r.Sound)
    (hwide : r.start ≤ 2 * r.threshold + 3) (k : κ) (v : ν) :
    (∀ t m now, r.machine.Run .empty t m → Kept gap k v now t → m.Lasts k v now) ↔
      gap ≤ r.threshold + 1 := by
  constructor
  · intro hall
    by_contra hlt
    obtain ⟨t, m, now, hrun, hk, hn⟩ := r.lapses hr hwide (not_le.mp hlt) k v
    exact hn (hall t m now hrun hk)
  · intro hle t m now hrun hk
    exact r.machine_kept hr.threshold hrun (hk.mono hle)

end Lib
