import Shelterflex.Lib.Since

/-! A machine seen as another that takes part in it. -/

namespace Lib
set_option autoImplicit true

theorem Since.of_filterMap {f : α → Option β} {p q : β → Prop} {t : List α}
    (h : Since p q (t.filterMap f)) :
    Since (fun a => ∃ b, f a = some b ∧ p b) (fun a => ∃ b, f a = some b ∧ q b) t := by
  induction t with
  | nil => cases h
  | cons a t ih =>
    rw [List.filterMap_cons] at h
    cases ha : f a with
    | none =>
      rw [ha] at h
      refine .earlier ?_ (ih h)
      rintro ⟨b, hb, _⟩
      cases ha.symm.trans hb
    | some b =>
      rw [ha] at h
      rcases since_cons.mp h with hp | ⟨hq, h⟩
      · exact .now ⟨b, ha, hp⟩
      · refine .earlier ?_ (ih h)
        rintro ⟨b', hb', hq'⟩
        cases ha.symm.trans hb'
        exact hq hq'

namespace Machine

/-- What another machine sees of the events of a machine: they are its own, or nothing to it. -/
structure View (M : Machine σ ι ο) (N : Machine σ' ι' ο') where
  state : σ → σ'
  event : Event σ ι ο → Option (Event σ' ι' ο')
  taken : ∀ {e e'}, M.step e.pre e.input = some (e.post, e.output) → event e = some e' →
    e'.pre = state e.pre ∧ e'.post = state e.post ∧
      N.step e'.pre e'.input = some (e'.post, e'.output)
  idle : ∀ {e}, M.step e.pre e.input = some (e.post, e.output) → event e = none →
    state e.post = state e.pre

def View.history {M : Machine σ ι ο} {N : Machine σ' ι' ο'} (v : View M N)
    (t : List (Event σ ι ο)) : List (Event σ' ι' ο') := t.filterMap v.event

/-- A part of a run is a run. -/
theorem Run.view {M : Machine σ ι ο} {N : Machine σ' ι' ο'} (v : View M N) (h : M.Run s₀ t s) :
    N.Run (v.state s₀) (v.history t) (v.state s) := by
  induction h with
  | start => exact .start
  | @commit t s i s' o hr hs ih =>
    rw [View.history, List.filterMap_cons]
    cases he : v.event ⟨s, i, o, s'⟩ with
    | none =>
      rw [v.idle (e := ⟨s, i, o, s'⟩) hs he]
      exact ih
    | some e' =>
      obtain ⟨pre, input, output, post⟩ := e'
      obtain ⟨rfl, rfl, hstep⟩ := v.taken (e := ⟨s, i, o, s'⟩) hs he
      exact .commit ih hstep
  | rollback _ _ ih => exact ih

end Machine

end Lib
