import Shelterflex.BondCollateral.Effects
import Shelterflex.SlashingModule.Accounts
import Shelterflex.Lib.Since

/-! The contract beside the slashing module it is linked to. -/

namespace Shelterflex.BondCollateral
open Lib
set_option autoImplicit true

/-- What the module at an address sees of a call that another contract makes. -/
def calleeEnv (callee : Address) (now : Nat) (auth : Address → Bool) : Env callee :=
  ⟨now, fun a => auth a && !decide (a = callee), by simp⟩

/-- The one slashing module, and feeds that quote fixed prices. -/
def linkedPeers (slashingModule : Address) (quotes : Address → Option OraclePrice) :
    Peers SlashingModule.State where
  price _ feed := quotes feed
  slash p now auth target caller inspector amount inspectionId reason :=
    if target = slashingModule then
      commit (SlashingModule.slash (calleeEnv slashingModule now auth) caller inspector amount
        inspectionId reason p) Prod.fst
    else none

/-- A call of one of the two contracts. -/
inductive Move (own slashingModule : Address) where
  | bond (env : Env own) (c : Call)
  | slashing (env : Env slashingModule) (c : SlashingModule.Call)

/-- Neither contract is linked to anything but the other, and the bond contract signs nothing. -/
def Move.Linked : Move own slashingModule → Prop
  | .bond _ (.setSlashingModule _ target) => target = slashingModule
  | .bond _ _ => True
  | .slashing env (.setBondContract _ bondContract) =>
    bondContract = own ∧ env.authorized own = false
  | .slashing env _ => env.authorized own = false

instance (m : Move own slashingModule) : Decidable m.Linked := by
  unfold Move.Linked
  split <;> infer_instance

def moved (tok : Token T) (quotes : Address → Option OraclePrice) (sha256 : Bytes → BytesN 32)
    (w : World T SlashingModule.State) :
    Move own slashingModule → Option (World T SlashingModule.State)
  | .bond env c => (invoke tok (linkedPeers slashingModule quotes) env w c).map Prod.fst
  | .slashing env c =>
    (SlashingModule.invoke sha256 env w.peers c).map fun r => { w with peers := r.1 }

/-- The contract at `own` and the module at `slashingModule`. -/
def deployment (tok : Token T) (quotes : Address → Option OraclePrice)
    (sha256 : Bytes → BytesN 32) (own slashingModule : Address) :
    Machine (World T SlashingModule.State) (Move own slashingModule) Unit where
  step w m := if m.Linked then (moved tok quotes sha256 w m).map (·, ()) else none

abbrev Step (T : Type) (own slashingModule : Address) :=
  Event (World T SlashingModule.State) (Move own slashingModule) Unit

/-! What an inspector has put in and taken out, and the locks the operator has set. -/

def deposited (inspector : Address) (e : Step T own slashingModule) : Int :=
  match e.input with
  | .bond _ (.depositBond inspector' amount) => if inspector' = inspector then amount else 0
  | _ => 0

def withdrawn (inspector : Address) (e : Step T own slashingModule) : Int :=
  match e.input with
  | .bond _ (.withdrawBond inspector' amount) => if inspector' = inspector then amount else 0
  | _ => 0

def Locks (inspector : Address) (inspectionId : Bytes) (e : Step T own slashingModule) : Prop :=
  match e.input with
  | .bond _ (.lockBond _ inspector' inspectionId') =>
    inspector' = inspector ∧ inspectionId' = inspectionId
  | _ => False

def Unlocks (inspector : Address) (inspectionId : Bytes) (e : Step T own slashingModule) : Prop :=
  match e.input with
  | .bond _ (.unlockBond _ inspector' inspectionId') =>
    inspector' = inspector ∧ inspectionId' = inspectionId
  | _ => False

/-- The slashes that the module has on record against an inspector. -/
def recorded (p : SlashingModule.State) (inspector : Address) : Int :=
  ((SlashingModule.getSlashHistory p inspector).map
    SlashingModule.InspectorSlashRecord.amount).sum

/-- The bond of an inspector against the history of the deployment. -/
structure Agrees (t : List (Step T own slashingModule)) (w : World T SlashingModule.State) :
    Prop where
  bond : ∀ inspector, getInspectorBond w.bond inspector =
    (t.map (deposited inspector)).sum - (t.map (withdrawn inspector)).sum -
      recorded w.peers inspector
  nonneg : ∀ inspector, 0 ≤ getInspectorBond w.bond inspector
  registered : ∀ {a}, w.peers.bondContract = some a → a = own

section
variable {own slashingModule : Address} {t : List (Step T own slashingModule)}
  {e : Step T own slashingModule} {w w' : World T SlashingModule.State}

theorem Agrees.cons (h : Agrees t w)
    (hbond : ∀ inspector, getInspectorBond w'.bond inspector =
      getInspectorBond w.bond inspector + deposited inspector e - withdrawn inspector e -
        (recorded w'.peers inspector - recorded w.peers inspector))
    (hn : ∀ inspector, 0 ≤ getInspectorBond w'.bond inspector)
    (hr : w'.peers.bondContract = w.peers.bondContract ∨
      ∀ {a}, w'.peers.bondContract = some a → a = own) : Agrees (e :: t) w' where
  bond inspector := by
    have hw := hbond inspector
    have hb := h.bond inspector
    simp only [List.map_cons, List.sum_cons]
    omega
  nonneg := hn
  registered := by
    rcases hr with hr | hr
    · rw [hr]
      exact h.registered
    · exact hr

theorem Agrees.keep (h : Agrees t w) (hb : w'.bond.inspectorBond = w.bond.inspectorBond)
    (hh : SlashingModule.getSlashHistory w'.peers = SlashingModule.getSlashHistory w.peers)
    (hd : ∀ inspector, deposited inspector e = 0) (hw : ∀ inspector, withdrawn inspector e = 0)
    (hr : w'.peers.bondContract = w.peers.bondContract ∨
      ∀ {a}, w'.peers.bondContract = some a → a = own) : Agrees (e :: t) w' := by
  apply h.cons
  · intro inspector
    rw [hd, hw, recorded, recorded, hh, getInspectorBond, getInspectorBond, hb]
    omega
  · intro inspector
    rw [getInspectorBond, hb]
    exact h.nonneg inspector
  · exact hr

theorem Agrees.move (h : Agrees t w) (inspector : Address) (n : Int)
    (hb : w'.bond.inspectorBond =
      w.bond.inspectorBond.set inspector (getInspectorBond w.bond inspector + n))
    (hn : 0 ≤ getInspectorBond w.bond inspector + n)
    (hm : ∀ i, deposited i e - withdrawn i e - (recorded w'.peers i - recorded w.peers i) =
      if inspector = i then n else 0)
    (hr : w'.peers.bondContract = w.peers.bondContract) : Agrees (e :: t) w' := by
  have hget (i : Address) : getInspectorBond w'.bond i =
      getInspectorBond w.bond i + if inspector = i then n else 0 := by
    rw [getInspectorBond, hb, Store.getD_set]
    by_cases hi : i = inspector
    · rw [if_pos hi, if_pos hi.symm, hi]
    · rw [if_neg hi, if_neg (Ne.symm hi), add_zero]
      rfl
  apply h.cons
  · intro i
    have hi := hget i
    have hmi := hm i
    omega
  · intro i
    rw [hget i]
    split
    · rename_i he
      exact he ▸ hn
    · rw [add_zero]
      exact h.nonneg i
  · exact .inl hr

theorem recorded_slash {p p' : SlashingModule.State} {env : Env slashingModule}
    (h : SlashingModule.slash env caller inspector amount inspectionId reason p = .ok (p', n))
    (i : Address) : recorded p' i = recorded p i + if inspector = i then amount else 0 := by
  obtain ⟨_, _, rfl⟩ := SlashingModule.slash_ok h
  rw [recorded, SlashingModule.getSlashHistory, Store.getD_set]
  by_cases hi : i = inspector
  · rw [if_pos hi, if_pos hi.symm, List.map_append, List.sum_append, ← hi]
    simp only [List.map_cons, List.map_nil, List.sum_cons, List.sum_nil, add_zero]
    rfl
  · rw [if_neg hi, if_neg (Ne.symm hi), add_zero]
    rfl

variable {tok : Token T} {quotes : Address → Option OraclePrice}

theorem linkedPeers_slash {p p' : SlashingModule.State}
    (h : (linkedPeers slashingModule quotes).slash p now auth target caller inspector amount
      inspectionId reason = some p') :
    ∃ n, SlashingModule.slash (calleeEnv slashingModule now auth) caller inspector amount
      inspectionId reason p = .ok (p', n) := by
  simp only [linkedPeers, Option.ite_none_right_eq_some] at h
  obtain ⟨_, h⟩ := h
  obtain ⟨⟨_, n⟩, hs, rfl⟩ := commit_some.mp h
  exact ⟨n, hs⟩

theorem bond_agrees {env : Env own} (h : Agrees t w)
    (hs : invoke tok (linkedPeers slashingModule quotes) env w c = some (w', o)) :
    Agrees (⟨w, .bond env c, (), w'⟩ :: t) w' := by
  by_cases hc : c.inspects = false
  · obtain ⟨hb, _, hp⟩ := (invoke_writes hs).uninspected hc
    have hh : SlashingModule.getSlashHistory w'.peers = SlashingModule.getSlashHistory w.peers :=
      congrArg _ hp
    apply h.keep hb hh
    · intro inspector
      cases c with
      | depositBond _ _ => cases hc
      | _ => rfl
    · intro inspector
      cases c with
      | withdrawBond _ _ => cases hc
      | _ => rfl
    · exact .inl (congrArg _ hp)
  cases c with
  | depositBond inspector amount =>
    obtain ⟨s', hok, he⟩ := commit_some.mp hs
    cases he
    apply h.move inspector amount
    · exact congrArg State.inspectorBond (depositBond_ok hok)
    · exact add_nonneg (h.nonneg _) (depositBond_pos hok).le
    · intro i
      simp only [deposited, withdrawn]
      omega
    · rfl
  | withdrawBond inspector amount =>
    obtain ⟨s', hok, he⟩ := commit_some.mp hs
    cases he
    apply h.move inspector (-amount)
    · exact congrArg State.inspectorBond (withdrawBond_ok hok)
    · exact sub_nonneg.mpr (withdrawBond_checks hok).2
    · intro i
      simp only [deposited, withdrawn]
      split
      · omega
      · omega
    · rfl
  | lockBond operator inspector inspectionId =>
    obtain ⟨_, hok, he⟩ := commit_some.mp hs
    cases he
    cases lockBond_ok hok
    exact h.keep rfl rfl (fun _ => rfl) (fun _ => rfl) (.inl rfl)
  | unlockBond operator inspector inspectionId =>
    obtain ⟨_, hok, he⟩ := commit_some.mp hs
    cases he
    cases unlockBond_ok hok
    exact h.keep rfl rfl (fun _ => rfl) (fun _ => rfl) (.inl rfl)
  | executeSlash admin inspector amount inspectionId reason =>
    obtain ⟨_, hok, he⟩ := commit_some.mp hs
    cases he
    obtain ⟨hle, _, _, hp⟩ := executeSlash_slashed hok
    obtain ⟨_, hw⟩ := executeSlash_ok hok
    obtain ⟨_, hslash⟩ := linkedPeers_slash hp
    have hrec := recorded_slash hslash
    obtain ⟨_, _, hp'⟩ := SlashingModule.slash_ok hslash
    apply h.move inspector (-amount)
    · exact congrArg State.inspectorBond hw
    · exact sub_nonneg.mpr hle
    · intro i
      rw [hrec i]
      simp only [deposited, withdrawn]
      split
      · omega
      · omega
    · rw [hp']
  | _ => exact absurd rfl hc

theorem slashing_agrees {env : Env slashingModule} {p' : SlashingModule.State}
    (h : Agrees t w) (hl : (Move.slashing env c : Move own slashingModule).Linked)
    (hs : SlashingModule.invoke sha256 env w.peers c = some (p', o)) :
    Agrees (⟨w, .slashing env c, (), { w with peers := p' }⟩ :: t) { w with peers := p' } := by
  cases hc : c.recordsSlash with
  | false =>
    have hh := SlashingModule.invoke_history hs hc
    cases hr : c.registers with
    | false =>
      exact h.keep rfl hh (fun _ => rfl) (fun _ => rfl)
        (.inl ((SlashingModule.invoke_written hs).bondContract hr))
    | true =>
      cases c with
      | setBondContract admin bondContract =>
        obtain ⟨_, hok, he⟩ := commit_some.mp hs
        cases he
        simp only [SlashingModule.setBondContract, bind_ok, pure_ok] at hok
        obtain ⟨_, _, _, _, rfl⟩ := hok
        exact h.keep rfl hh (fun _ => rfl) (fun _ => rfl)
          (.inr fun ha => (Option.some.inj ha).symm.trans hl.1)
      | _ => cases hr
  | true =>
    cases c with
    | slash caller inspector amount inspectionId reason =>
      obtain ⟨⟨_, _⟩, hok, he⟩ := commit_some.mp hs
      obtain ⟨hr, ha, _⟩ := SlashingModule.slash_ok hok
      rw [h.registered hr] at ha
      exact absurd (hl.symm.trans ha) Bool.false_ne_true
    | _ => cases hc

theorem deployment_agrees {e : Step T own slashingModule} (h : Agrees t e.pre)
    (hs : (deployment tok quotes sha256 own slashingModule).step e.pre e.input =
      some (e.post, e.output)) : Agrees (e :: t) e.post := by
  obtain ⟨w, m, ⟨⟩, w'⟩ := e
  simp only [deployment, Option.ite_none_right_eq_some, Option.map_eq_some_iff,
    Prod.mk.injEq] at hs
  obtain ⟨hl, _, hm, rfl, _⟩ := hs
  cases m with
  | bond env c =>
    obtain ⟨⟨_, o⟩, hok, rfl⟩ := Option.map_eq_some_iff.mp hm
    exact bond_agrees h hok
  | slashing env c =>
    obtain ⟨⟨_, o⟩, hok, rfl⟩ := Option.map_eq_some_iff.mp hm
    exact slashing_agrees h hl hok

/-! Locks -/

theorem locks_keep (hl : e.post.bond.inspectorLocks = e.pre.bond.inspectorLocks)
    (hn : ¬ Locks inspector inspectionId e) (hu : ¬ Unlocks inspector inspectionId e) :
    inspectionId ∈ getInspectorLocks e.post.bond inspector ↔
      Locks inspector inspectionId e ∨ ¬ Unlocks inspector inspectionId e ∧
        inspectionId ∈ getInspectorLocks e.pre.bond inspector := by
  rw [getInspectorLocks, hl]
  exact ⟨fun h => .inr ⟨hu, h⟩, fun h => (h.resolve_left hn).2⟩

theorem deployment_locks
    (hs : (deployment tok quotes sha256 own slashingModule).step e.pre e.input =
      some (e.post, e.output)) (inspector : Address) (inspectionId : Bytes) :
    inspectionId ∈ getInspectorLocks e.post.bond inspector ↔
      Locks inspector inspectionId e ∨ ¬ Unlocks inspector inspectionId e ∧
        inspectionId ∈ getInspectorLocks e.pre.bond inspector := by
  obtain ⟨w, m, ⟨⟩, w'⟩ := e
  simp only [deployment, Option.ite_none_right_eq_some, Option.map_eq_some_iff,
    Prod.mk.injEq] at hs
  obtain ⟨_, _, hm, rfl, _⟩ := hs
  cases m with
  | slashing env c =>
    obtain ⟨⟨_, o⟩, _, rfl⟩ := Option.map_eq_some_iff.mp hm
    exact locks_keep rfl nofun nofun
  | bond env c =>
    obtain ⟨⟨_, o⟩, hs, rfl⟩ := Option.map_eq_some_iff.mp hm
    by_cases hc : c.inspects = false
    · obtain ⟨_, hl, _⟩ := (invoke_writes hs).uninspected hc
      cases c with
      | depositBond _ _ | withdrawBond _ _ | lockBond _ _ _ | unlockBond _ _ _
      | executeSlash _ _ _ _ _ => cases hc
      | _ => exact locks_keep hl nofun nofun
    cases c with
    | depositBond _ _ =>
      obtain ⟨_, hok, he⟩ := commit_some.mp hs
      cases he
      cases depositBond_ok hok
      exact locks_keep rfl nofun nofun
    | withdrawBond _ _ =>
      obtain ⟨_, hok, he⟩ := commit_some.mp hs
      cases he
      cases withdrawBond_ok hok
      exact locks_keep rfl nofun nofun
    | executeSlash _ _ _ _ _ =>
      obtain ⟨_, hok, he⟩ := commit_some.mp hs
      cases he
      obtain ⟨_, hw⟩ := executeSlash_ok hok
      apply locks_keep
      · dsimp only
        rw [hw]
      · nofun
      · nofun
    | lockBond operator inspector' inspectionId' =>
      obtain ⟨_, hok, he⟩ := commit_some.mp hs
      cases he
      cases lockBond_ok hok
      simp only [getInspectorLocks, Store.getD_set, Locks, Unlocks, not_false_eq_true, true_and]
      split <;> rename_i hi
      · rw [hi, List.mem_append, List.mem_singleton, or_comm, eq_comm (a := inspectionId)]
        simp only [true_and]
      · simp only [Ne.symm hi, false_and, false_or]
    | unlockBond operator inspector' inspectionId' =>
      obtain ⟨_, hok, he⟩ := commit_some.mp hs
      cases he
      cases unlockBond_ok hok
      simp only [getInspectorLocks, Store.getD_set, Locks, Unlocks, false_or]
      split <;> rename_i hi
      · rw [hi, List.mem_filter, decide_eq_true_eq, and_comm, ne_comm]
        simp only [true_and, ne_eq]
      · simp only [Ne.symm hi, false_and, not_false_eq_true, true_and]
    | _ => exact absurd rfl hc

/-- The stored locks of an inspector are those set and not released since. -/
theorem locks_held
    (h : (deployment tok quotes sha256 own slashingModule).Run
      ⟨.fresh, t₀, SlashingModule.initialized admin⟩ t w)
    (inspector : Address) (inspectionId : Bytes) :
    inspectionId ∈ getInspectorLocks w.bond inspector ↔
      Since (Locks inspector inspectionId) (Unlocks inspector inspectionId) t := by
  apply h.invariant (P := fun t w => inspectionId ∈ getInspectorLocks w.bond inspector ↔
    Since (Locks inspector inspectionId) (Unlocks inspector inspectionId) t)
  · exact iff_of_false List.not_mem_nil nofun
  · intro t s m s' o hp hs
    rw [since_cons, ← hp]
    exact deployment_locks (e := ⟨s, m, o, s'⟩) hs inspector inspectionId

theorem withdrawn_unlocked {e : Step T own slashingModule}
    (hs : (deployment tok quotes sha256 own slashingModule).step e.pre e.input =
      some (e.post, e.output)) (hw : withdrawn inspector e ≠ 0) :
    getInspectorLocks e.pre.bond inspector = [] := by
  obtain ⟨w, m, ⟨⟩, w'⟩ := e
  cases m with
  | slashing env c => exact absurd rfl hw
  | bond env c =>
    cases c with
    | withdrawBond inspector' amount =>
      simp only [deployment, Option.ite_none_right_eq_some, Option.map_eq_some_iff,
        Prod.mk.injEq] at hs
      obtain ⟨_, _, hm, rfl, _⟩ := hs
      obtain ⟨⟨_, _⟩, hok, _⟩ := Option.map_eq_some_iff.mp hm
      obtain ⟨_, hok, _⟩ := commit_some.mp hok
      obtain ⟨hl, _⟩ := withdrawBond_checks hok
      simp only [withdrawn, ne_eq, ite_eq_right_iff, Classical.not_imp] at hw
      exact hw.1 ▸ hl
    | _ => exact absurd rfl hw

/-- The bond of an inspector is what was deposited, less what was withdrawn and what the module has
on record; it is never negative, and nothing is withdrawn from it while a lock is held. -/
theorem bonds_agree
    (h : (deployment tok quotes sha256 own slashingModule).Run
      ⟨.fresh, t₀, SlashingModule.initialized admin⟩ t w)
    (inspector : Address) :
    getInspectorBond w.bond inspector =
        (t.map (deposited inspector)).sum - (t.map (withdrawn inspector)).sum -
          recorded w.peers inspector ∧
      0 ≤ getInspectorBond w.bond inspector ∧
      ∀ e later earlier, t = later ++ e :: earlier →
        (∃ inspectionId,
          Since (Locks inspector inspectionId) (Unlocks inspector inspectionId) earlier) →
        withdrawn inspector e = 0 := by
  have hagrees : Agrees t w := by
    apply h.invariant (P := Agrees)
    · exact ⟨fun _ => rfl, fun _ => le_rfl, nofun⟩
    · intro t s m s' o hp hs
      exact deployment_agrees (e := ⟨s, m, o, s'⟩) hp hs
  refine ⟨hagrees.bond inspector, hagrees.nonneg inspector, ?_⟩
  rintro e later earlier rfl ⟨inspectionId, hlock⟩
  by_contra hw
  obtain ⟨hr, hs⟩ := h.upTo
  have hmem := (locks_held hr inspector inspectionId).mpr hlock
  rw [withdrawn_unlocked hs hw] at hmem
  exact List.not_mem_nil hmem

end

def linkedWorld : World (Address → Int) SlashingModule.State :=
  ⟨.fresh, fun _ => 0, SlashingModule.initialized ⟨1⟩⟩

/-- An inspector deposits 100, before the contract is opened and linked; 30 are withdrawn before
the bond is locked and 40 are slashed after. -/
def slashedMoves : List (Move ⟨0⟩ ⟨6⟩) :=
  [.bond (.signed ⟨0⟩ 0) (.depositBond ⟨2⟩ 100),
    .bond (.signed ⟨0⟩ 0) (.init ⟨1⟩ ⟨9⟩),
    .bond (.signed ⟨0⟩ 0) (.setSlashingModule ⟨1⟩ ⟨6⟩),
    .slashing ⟨0, fun a => a = ⟨1⟩, rfl⟩ (.setBondContract ⟨1⟩ ⟨0⟩),
    .bond (.signed ⟨0⟩ 0) (.setOperator ⟨1⟩ ⟨4⟩),
    .bond (.signed ⟨0⟩ 0) (.withdrawBond ⟨2⟩ 30),
    .bond (.signed ⟨0⟩ 0) (.lockBond ⟨4⟩ ⟨2⟩ [1]),
    .bond (.signed ⟨0⟩ 0) (.executeSlash ⟨1⟩ ⟨2⟩ 40 [1] [])]

def slashedRun : List (Step (Address → Int) ⟨0⟩ ⟨6⟩) × World (Address → Int) SlashingModule.State :=
  (deployment plainToken (fun _ => none) (fun _ => .replicate 32 0) ⟨0⟩ ⟨6⟩).replay linkedWorld
    slashedMoves

theorem bonds_agree_slashed : recorded slashedRun.2.peers ⟨2⟩ = 40 ∧
    getInspectorBond slashedRun.2.bond ⟨2⟩ =
      (slashedRun.1.map (deposited ⟨2⟩)).sum - (slashedRun.1.map (withdrawn ⟨2⟩)).sum -
        recorded slashedRun.2.peers ⟨2⟩ ∧
    0 ≤ getInspectorBond slashedRun.2.bond ⟨2⟩ ∧
    ∀ e later earlier, slashedRun.1 = later ++ e :: earlier →
      (∃ inspectionId, Since (Locks ⟨2⟩ inspectionId) (Unlocks ⟨2⟩ inspectionId) earlier) →
      withdrawn ⟨2⟩ e = 0 := by
  have hrecorded : recorded slashedRun.2.peers ⟨2⟩ = 40 := by decide
  exact ⟨hrecorded, bonds_agree ((deployment plainToken (fun _ => none)
    (fun _ => .replicate 32 0) ⟨0⟩ ⟨6⟩).run_replay linkedWorld slashedMoves) ⟨2⟩⟩

end Shelterflex.BondCollateral
