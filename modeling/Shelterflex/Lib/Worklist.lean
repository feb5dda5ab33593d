import Mathlib.Data.Finset.Card
import Mathlib.Data.Prod.Lex
import Mathlib.Logic.Hydra
import Mathlib.Logic.Relation

/-! Loops with a bound on their turns, and searches that take places from a stack. -/

namespace Lib.Worklist
set_option autoImplicit true

section Loop

variable {ε : Type u} {σ : Type v} {τ : Type w}

/-- A `while` loop, `none` when the turns do not suffice. -/
def loop (more : σ → Bool) (turn : σ → Except ε σ) : Nat → σ → Except ε (Option σ)
  | 0, s => .ok (if more s then none else some s)
  | n + 1, s => if more s then turn s >>= loop more turn n else .ok (some s)

variable {more : σ → Bool} {turn : σ → Except ε σ}

theorem loop_done (h : more s = false) (n : Nat) : loop more turn n s = .ok (some s) := by
  cases n with
  | zero => simp only [loop, h, Bool.false_eq_true, ↓reduceIte]
  | succ n => simp only [loop, h, Bool.false_eq_true, ↓reduceIte]

theorem loop_turn (h : more s = true) (n : Nat) :
    loop more turn (n + 1) s = turn s >>= loop more turn n := by
  rw [loop, if_pos h]

/-- What every turn keeps holds at the end, and at the turn that fails. -/
theorem loop_rule {I : σ → Prop} (hturn : ∀ s s', I s → more s → turn s = .ok s' → I s')
    (h : I s) (n : Nat) :
    (∀ s', loop more turn n s = .ok (some s') → I s' ∧ more s' = false) ∧
      ∀ e, loop more turn n s = .error e → ∃ s', I s' ∧ more s' ∧ turn s' = .error e := by
  induction n generalizing s with
  | zero =>
    constructor
    · intro s' hs'
      by_cases hmore : more s
      · rw [loop, if_pos hmore] at hs'
        cases hs'
      · have hdone := Bool.eq_false_of_not_eq_true hmore
        rw [loop_done hdone] at hs'
        cases hs'
        exact ⟨h, hdone⟩
    · intro e he
      cases he
  | succ n ih =>
    by_cases hmore : more s
    · rw [loop_turn hmore]
      cases hs : turn s with
      | error e =>
        constructor
        · intro s' hs'
          cases hs'
        · intro e' he'
          cases he'
          exact ⟨s, h, hmore, hs⟩
      | ok s' => exact ih (hturn s s' h hmore hs)
    · have hdone := Bool.eq_false_of_not_eq_true hmore
      rw [loop_done hdone]
      constructor
      · intro s' hs'
        cases hs'
        exact ⟨h, hdone⟩
      · intro e he
        cases he

/-- A loop whose turns go down in a well-founded order ends. -/
theorem loop_ends {I : σ → Prop} (hturn : ∀ s s', I s → more s → turn s = .ok s' → I s')
    {r : τ → τ → Prop} (hr : WellFounded r) (measure : σ → τ)
    (hdown : ∀ s s', I s → more s → turn s = .ok s' → r (measure s') (measure s)) (h : I s) :
    ∃ n, ∀ m ≥ n, loop more turn m s ≠ .ok none := by
  induction hm : measure s using hr.induction generalizing s with
  | _ t ih =>
    by_cases hmore : more s
    · cases hs : turn s with
      | error e =>
        refine ⟨1, fun m hm => ?_⟩
        obtain ⟨m, rfl⟩ := Nat.exists_eq_add_of_le' hm
        rw [loop_turn hmore, hs]
        intro hnone
        cases hnone
      | ok s' =>
        obtain ⟨n, hn⟩ := ih (measure s') (hm ▸ hdown s s' h hmore hs) (hturn s s' h hmore hs) rfl
        refine ⟨n + 1, fun m hm => ?_⟩
        obtain ⟨m, rfl⟩ := Nat.exists_eq_add_of_le' (Nat.le_of_add_left_le hm)
        rw [loop_turn hmore, hs]
        exact hn m (by omega)
    · refine ⟨0, fun m _ => ?_⟩
      rw [loop_done (Bool.eq_false_of_not_eq_true hmore)]
      intro hnone
      cases hnone

end Loop

section Reached

variable {α : Type u} {step : α → α → Prop} {root : α → Prop} {a b x : α}

/-- A place that steps lead to from a root. -/
def Reached (step : α → α → Prop) (root : α → Prop) (a : α) : Prop :=
  ∃ r, root r ∧ Relation.ReflTransGen step r a

theorem Reached.of_root (h : root a) : Reached step root a := ⟨a, h, .refl⟩

theorem Reached.tail (h : Reached step root a) (hstep : step a b) : Reached step root b := by
  obtain ⟨r, hr, hpath⟩ := h
  exact ⟨r, hr, hpath.tail hstep⟩

theorem Reached.closed {P : α → Prop} (hroot : ∀ a, root a → P a)
    (hstep : ∀ a b, P a → step a b → P b) (h : Reached step root a) : P a := by
  obtain ⟨r, hr, hpath⟩ := h
  induction hpath with
  | refl => exact hroot r hr
  | tail _ hab ih => exact hstep _ _ ih hab

/-- What is reached from a stack is its top, or reached from the rest and what is next to the
top. -/
theorem reached_open {pending new : List α} (hnew : ∀ b, b ∈ new ↔ step a b ∨ b ∈ pending) :
    Reached step (· ∈ a :: pending) x ↔ x = a ∨ Reached step (· ∈ new) x := by
  constructor
  · intro h
    refine h.closed (P := fun x => x = a ∨ Reached step (· ∈ new) x) ?_ ?_
    · intro b hb
      rcases List.mem_cons.1 hb with rfl | hb
      · exact .inl rfl
      · exact .inr (.of_root ((hnew b).2 (.inr hb)))
    · rintro b c (rfl | hb) hstep
      · exact .inr (.of_root ((hnew c).2 (.inl hstep)))
      · exact .inr (hb.tail hstep)
  · have ha : Reached step (· ∈ a :: pending) a := .of_root List.mem_cons_self
    rintro (rfl | h)
    · exact ha
    · refine h.closed (fun b hb => ?_) fun _ _ hb hstep => hb.tail hstep
      rcases (hnew b).1 hb with hb | hb
      · exact ha.tail hb
      · exact .of_root (List.mem_cons_of_mem a hb)

end Reached

/-- The places visited, and those on the stack with its top first. -/
structure Search (α : Type u) where
  visited : Finset α
  pending : List α

section Search

variable {ε : Type u} {α : Type v} {next : α → Except ε (List α)} {root : α → Prop}
  {visited : Finset α} {pending : List α}

/-- One step of a search finds the places of `next`. -/
def Edge (next : α → Except ε (List α)) (a b : α) : Prop := ∃ more, next a = .ok more ∧ b ∈ more

/-- The places visited or pending are reached, and nothing next to a visited place is missing. -/
structure Invariant (next : α → Except ε (List α)) (root : α → Prop) (s : Search α) :
    Prop where
  reached : ∀ a, a ∈ s.visited ∨ a ∈ s.pending → Reached (Edge next) root a
  started : ∀ a, root a → a ∈ s.visited ∨ a ∈ s.pending
  opened : ∀ a ∈ s.visited, ∃ more, next a = .ok more ∧ ∀ b ∈ more, b ∈ s.visited ∨ b ∈ s.pending

theorem Invariant.start (roots : List α) : Invariant next (· ∈ roots) ⟨∅, roots⟩ where
  reached a h := .of_root (h.resolve_left (Finset.notMem_empty a))
  started _ h := .inr h
  opened a h := absurd h (Finset.notMem_empty a)

theorem Invariant.skip (h : Invariant next root ⟨visited, a :: pending⟩) (ha : a ∈ visited) :
    Invariant next root ⟨visited, pending⟩ := by
  have hkept : ∀ b, b ∈ visited ∨ b ∈ a :: pending → b ∈ visited ∨ b ∈ pending := by
    rintro b (hb | hb)
    · exact .inl hb
    · rcases List.mem_cons.1 hb with rfl | hb
      · exact .inl ha
      · exact .inr hb
  refine ⟨?_, fun b hb => hkept b (h.started b hb), ?_⟩
  · exact fun b hb => h.reached b (hb.imp_right (List.mem_cons_of_mem a))
  · intro b hb
    obtain ⟨more, hmore, hall⟩ := h.opened b hb
    exact ⟨more, hmore, fun c hc => hkept c (hall c hc)⟩

theorem Invariant.finished (h : Invariant next root ⟨visited, []⟩) :
    a ∈ visited ↔ Reached (Edge next) root a := by
  have hkept : ∀ b, b ∈ visited ∨ b ∈ ([] : List α) → b ∈ visited :=
    fun b hb => hb.resolve_right List.not_mem_nil
  refine ⟨fun ha => h.reached a (.inl ha), fun ha => ?_⟩
  refine ha.closed (fun b hb => hkept b (h.started b hb)) ?_
  rintro b c hb ⟨more, hmore, hc⟩
  obtain ⟨more', hmore', hall⟩ := h.opened b hb
  rw [hmore] at hmore'
  cases hmore'
  exact hkept c (hall c hc)

variable [DecidableEq α]

theorem Invariant.open (h : Invariant next root ⟨visited, a :: pending⟩) (hmore : next a = .ok more)
    (hnew : ∀ b, b ∈ new ↔ b ∈ more ∨ b ∈ pending) :
    Invariant next root ⟨insert a visited, new⟩ := by
  have ha : Reached (Edge next) root a := h.reached a (.inr List.mem_cons_self)
  have hkept : ∀ b, b ∈ visited ∨ b ∈ a :: pending → b ∈ insert a visited ∨ b ∈ new := by
    rintro b (hb | hb)
    · exact .inl (Finset.mem_insert_of_mem hb)
    · rcases List.mem_cons.1 hb with rfl | hb
      · exact .inl (Finset.mem_insert_self b visited)
      · exact .inr ((hnew b).2 (.inr hb))
  refine ⟨?_, fun b hb => hkept b (h.started b hb), ?_⟩
  · rintro b (hb | hb)
    · rcases Finset.mem_insert.1 hb with rfl | hb
      · exact ha
      · exact h.reached b (.inl hb)
    · rcases (hnew b).1 hb with hb | hb
      · exact ha.tail ⟨more, hmore, hb⟩
      · exact h.reached b (.inr (List.mem_cons_of_mem a hb))
  · intro b hb
    rcases Finset.mem_insert.1 hb with rfl | hb
    · exact ⟨more, hmore, fun c hc => .inr ((hnew c).2 (.inl hc))⟩
    · obtain ⟨more', hmore', hall⟩ := h.opened b hb
      exact ⟨more', hmore', fun c hc => hkept c (hall c hc)⟩

/-- How far a search among finitely many places is from its end. -/
def remaining (places : Finset α) (s : Search α) : Nat ×ₗ Nat :=
  toLex ((places \ s.visited).card, s.pending.length)

theorem remaining_skip (places visited : Finset α) (a : α) (pending : List α) :
    remaining places ⟨visited, pending⟩ < remaining places ⟨visited, a :: pending⟩ :=
  Prod.Lex.toLex_lt_toLex.2 (.inr ⟨rfl, Nat.lt_succ_self _⟩)

theorem remaining_open {places : Finset α} (ha : a ∉ visited) (hplace : a ∈ places)
    (new pending : List α) :
    remaining places ⟨insert a visited, new⟩ < remaining places ⟨visited, pending⟩ := by
  refine Prod.Lex.toLex_lt_toLex.2 (.inl (Finset.card_lt_card ?_))
  rw [Finset.ssubset_iff_of_subset (Finset.sdiff_subset_sdiff subset_rfl
    (Finset.subset_insert a visited))]
  exact ⟨a, Finset.mem_sdiff.2 ⟨hplace, ha⟩,
    fun h => (Finset.mem_sdiff.1 h).2 (Finset.mem_insert_self a visited)⟩

end Search

/-- A search that does not remember where it was ends where no path is endless: its stack is cut
like a hydra. -/
theorem cut_down {r : α → α → Prop} (h : ∀ b ∈ more, r b a) (pending : List α) :
    Relation.CutExpand r (↑(more ++ pending)) (↑(a :: pending)) := by
  refine ⟨(more : Multiset α), a, h, ?_⟩
  rw [← Multiset.coe_add, ← Multiset.cons_coe, add_comm (more : Multiset α),
    ← Multiset.singleton_add, add_comm {a} (pending : Multiset α), add_right_comm]

end Lib.Worklist
