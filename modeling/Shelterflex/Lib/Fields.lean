import Mathlib.Data.List.Infix
import Shelterflex.Lib.Code

namespace Lib
set_option autoImplicit true

/-- A field of a text, omitted when it has no value. -/
def fieldText (key : List β) : Option (List β) → List β
  | some v => key ++ v
  | none => []

theorem fieldText_some (key v : List β) : fieldText key (some v) = key ++ v := rfl

/-- The fields of a text, one after the other. -/
def recordText (l : List (List β × Option (List β))) : List β :=
  l.flatMap fun f => fieldText f.1 f.2

theorem recordText_nil : recordText ([] : List (List β × Option (List β))) = [] := rfl

theorem recordText_cons (f : List β × Option (List β)) (l : List (List β × Option (List β))) :
    recordText (f :: l) = fieldText f.1 f.2 ++ recordText l :=
  List.flatMap_cons

/-- Keys of which none can be read where the other stands. -/
def Apart (k k' : List β) : Prop := ¬ k <+: k' ∧ ¬ k' <+: k

instance [DecidableEq β] (k k' : List β) : Decidable (Apart k k') :=
  inferInstanceAs (Decidable (_ ∧ _))

theorem starts_fieldText {key : List β} (hk : key.head? = some x) (v : Option (List β))
    (hr : Starts x r) : Starts x (fieldText key v ++ r) := by
  cases v with
  | none => exact hr
  | some v =>
    intro y hy
    rw [fieldText, List.append_assoc, List.head?_append, hk, Option.some_or] at hy
    exact (Option.some.inj hy).symm

theorem starts_recordText {l : List (List β × Option (List β))}
    (hk : ∀ f ∈ l, f.1.head? = some x) (hr : Starts x r) : Starts x (recordText l ++ r) := by
  induction l with
  | nil => exact hr
  | cons f l ih =>
    rw [recordText_cons, List.append_assoc]
    exact starts_fieldText (hk f List.mem_cons_self) f.2
      (ih fun f' hf => hk f' (List.mem_cons_of_mem _ hf))

theorem append_cut {a b r r' : List β} (h : a ++ r = b ++ r') :
    (a = b ∧ r = r') ∨ (∃ u, u ≠ [] ∧ a = b ++ u ∧ r' = u ++ r) ∨
      ∃ u, u ≠ [] ∧ b = a ++ u ∧ r = u ++ r' := by
  rcases List.append_eq_append_iff.mp h with ⟨u, hb, hr⟩ | ⟨u, ha, hr⟩
  · by_cases hu : u = []
    · subst hu
      exact .inl ⟨by rw [hb, List.append_nil], hr⟩
    · exact .inr (.inr ⟨u, hu, hb, hr⟩)
  · by_cases hu : u = []
    · subst hu
      exact .inl ⟨by rw [ha, List.append_nil], hr.symm⟩
    · exact .inr (.inl ⟨u, hu, ha, hr⟩)

theorem optionMap_inj {x y : Option α} {f : α → β} (h : ∀ a ∈ x, ∀ b ∈ y, f a = f b → a = b)
    (he : x.map f = y.map f) : x = y := by
  cases x with
  | none => exact (Option.map_eq_none_iff.mp he.symm).symm
  | some a =>
    cases y with
    | none => cases he
    | some b => rw [h a rfl b rfl (Option.some.inj he)]

theorem Apart.not_read {k k' : List β} (h : Apart k k') (r : List β) : ¬ k <+: k' ++ r := by
  intro hp
  rcases List.prefix_or_prefix_of_prefix hp (List.prefix_append k' r) with hp | hp
  · exact h.1 hp
  · exact h.2 hp

theorem not_prefix_fieldText {k key : List β} (h : Apart k key) (hr : ¬ k <+: r)
    (v : Option (List β)) : ¬ k <+: fieldText key v ++ r := by
  cases v with
  | none => exact hr
  | some v =>
    rw [fieldText, List.append_assoc]
    exact h.not_read _

theorem not_prefix_recordText {l : List (List β × Option (List β))} {k r : List β}
    (h : ∀ f ∈ l, Apart k f.1) (hr : ¬ k <+: r) : ¬ k <+: recordText l ++ r := by
  induction l with
  | nil => exact hr
  | cons f l ih =>
    rw [recordText_cons, List.append_assoc]
    exact not_prefix_fieldText (h f List.mem_cons_self)
      (ih fun f' hf => h f' (List.mem_cons_of_mem _ hf)) f.2

theorem fieldText_append {key : List β} (hk : ¬ key <+: r) (hk' : ¬ key <+: r')
    (h : fieldText key v ++ r = fieldText key v' ++ r') :
    (v = none ∧ v' = none ∧ r = r') ∨
      ∃ a b, v = some a ∧ v' = some b ∧ a ++ r = b ++ r' := by
  cases v with
  | none =>
    cases v' with
    | none => exact .inl ⟨rfl, rfl, h⟩
    | some b =>
      rw [fieldText, fieldText, List.nil_append, List.append_assoc] at h
      exact absurd ⟨_, h.symm⟩ hk
  | some a =>
    cases v' with
    | none =>
      rw [fieldText, fieldText, List.nil_append, List.append_assoc] at h
      exact absurd ⟨_, h⟩ hk'
    | some b =>
      rw [fieldText_some, fieldText_some, List.append_assoc, List.append_assoc] at h
      exact .inr ⟨a, b, rfl, rfl, List.append_cancel_left h⟩

theorem fieldText_inj {key : List β} (hk : key ≠ []) (h : fieldText key v = fieldText key v') :
    v = v' := by
  have hnil : ¬ key <+: [] := fun hp => hk (List.prefix_nil.mp hp)
  have h : fieldText key v ++ [] = fieldText key v' ++ [] := by rw [h]
  rcases fieldText_append hnil hnil h with ⟨rfl, rfl, _⟩ | ⟨a, b, rfl, rfl, he⟩
  · rfl
  · rw [List.append_nil, List.append_nil] at he
    rw [he]

/-- Fields whose keys are apart and start with the mark, with values without it, can be read off
the front of a text. -/
theorem recordText_inj {keys : List (List β)} {l l' : List (List β × Option (List β))}
    (hx : ∀ k ∈ keys, k.head? = some x) (ha : keys.Pairwise Apart) (hl : l.map Prod.fst = keys)
    (hl' : l'.map Prod.fst = keys) (hc : ∀ f ∈ l, ∀ a ∈ f.2, x ∉ a)
    (hc' : ∀ f ∈ l', ∀ a ∈ f.2, x ∉ a) (hr : Starts x r) (hr' : Starts x r')
    (hk : ∀ k ∈ keys, ¬ k <+: r) (hk' : ∀ k ∈ keys, ¬ k <+: r')
    (h : recordText l ++ r = recordText l' ++ r') : l = l' ∧ r = r' := by
  induction keys generalizing l l' with
  | nil =>
    cases List.map_eq_nil_iff.mp hl
    cases List.map_eq_nil_iff.mp hl'
    exact ⟨rfl, h⟩
  | cons key keys ih =>
    obtain ⟨⟨key₁, v⟩, l, rfl, he, ht⟩ := List.map_eq_cons_iff.mp hl
    obtain ⟨⟨key₂, v'⟩, l', rfl, he', ht'⟩ := List.map_eq_cons_iff.mp hl'
    change key₁ = key at he
    change key₂ = key at he'
    subst key₁ key₂
    obtain ⟨hap, ha⟩ := List.pairwise_cons.mp ha
    have hx' := fun k hm => hx k (List.mem_cons_of_mem _ hm)
    have hm {l : List (List β × Option (List β))} (hl : l.map Prod.fst = keys) :
        ∀ f ∈ l, f.1 ∈ keys := fun f hf => hl ▸ List.mem_map_of_mem hf
    have hstart {l : List (List β × Option (List β))} (hl : l.map Prod.fst = keys) {r : List β}
        (hr : Starts x r) : Starts x (recordText l ++ r) :=
      starts_recordText (fun f hf => hx' _ (hm hl f hf)) hr
    have hno {l : List (List β × Option (List β))} (hl : l.map Prod.fst = keys) {r : List β}
        (hr : ¬ key <+: r) : ¬ key <+: recordText l ++ r :=
      not_prefix_recordText (fun f hf => hap _ (hm hl f hf)) hr
    have ih := ih hx' ha ht ht' (fun f hf => hc f (List.mem_cons_of_mem _ hf))
      (fun f hf => hc' f (List.mem_cons_of_mem _ hf))
      (fun k hm => hk k (List.mem_cons_of_mem _ hm)) (fun k hm => hk' k (List.mem_cons_of_mem _ hm))
    rw [recordText_cons, recordText_cons, List.append_assoc, List.append_assoc] at h
    rcases fieldText_append (hno ht (hk _ List.mem_cons_self))
        (hno ht' (hk' _ List.mem_cons_self)) h with
      ⟨rfl, rfl, hrest⟩ | ⟨a, b, rfl, rfl, hrest⟩
    · obtain ⟨rfl, hr⟩ := ih hrest
      exact ⟨rfl, hr⟩
    · obtain ⟨rfl, htail⟩ := append_starts_inj (hc _ List.mem_cons_self a rfl)
        (hc' _ List.mem_cons_self b rfl) (hstart ht hr) (hstart ht' hr') hrest
      obtain ⟨rfl, hr⟩ := ih htail
      exact ⟨rfl, hr⟩

end Lib
