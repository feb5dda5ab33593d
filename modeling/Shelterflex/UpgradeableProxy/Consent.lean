import Shelterflex.Lib.Since
import Shelterflex.UpgradeableProxy.Model

/-! The code changes only with the consent of two parties. -/

namespace Shelterflex.UpgradeableProxy
open Lib
set_option autoImplicit true

abbrev Step (own : Address) := Event Instance (DeployerEnv own × Call) Unit

abbrev History (own : Address) := List (Step own)

/-- A call that the stored admin authorized. -/
structure ByAdmin (env : DeployerEnv own) (admin : Address) (s : State) : Prop where
  role : s.admin = some admin
  authorized : env.authorized admin = true

/-- The stored approver confirms the pending code, which the host has. -/
structure Confirms (env : DeployerEnv own) (approver : Address) (newWasmHash : BytesN 32)
    (s : State) : Prop where
  role : s.secondApprover = some approver
  authorized : env.authorized approver = true
  pending : s.pendingUpgrade = some newWasmHash
  fits : getVersion s + 1 < 2 ^ 32
  uploaded : env.uploaded newWasmHash = true

inductive Changes (env : DeployerEnv own) (w w' : Instance) : Call → Prop where
  | init (hn : w.storage.admin = none) (ha : env.authorized admin = true)
      (hs : w' = ⟨{ w.storage with
        admin := some admin
        secondApprover := some secondApprover
        version := some 1
        store := some .empty }, w.code⟩) :
      Changes env w w' (.init admin secondApprover)
  | proposeUpgrade (ha : ByAdmin env admin w.storage)
      (hs : w' = ⟨{ w.storage with pendingUpgrade := some newWasmHash }, w.code⟩) :
      Changes env w w' (.proposeUpgrade admin newWasmHash)
  | confirmUpgrade (ha : Confirms env approver newWasmHash w.storage)
      (hs : w' = ⟨{ w.storage with
        pendingUpgrade := none
        version := some (getVersion w.storage + 1) }, newWasmHash⟩) :
      Changes env w w' (.confirmUpgrade approver newWasmHash)
  | cancelUpgrade (ha : ByAdmin env admin w.storage)
      (hs : w' = ⟨{ w.storage with pendingUpgrade := none }, w.code⟩) :
      Changes env w w' (.cancelUpgrade admin)
  | transferAdmin (ha : ByAdmin env admin w.storage)
      (hs : w' = ⟨{ w.storage with admin := some newAdmin }, w.code⟩) :
      Changes env w w' (.transferAdmin admin newAdmin)
  | setValue (hs : w' = ⟨{ w.storage with
      store := some ((storeMap w.storage).set key value) }, w.code⟩) :
      Changes env w w' (.setValue key value)

theorem keep_some {w : Instance} (h : w.keep x = some (w', o)) :
    ∃ s, x = .ok s ∧ w' = ⟨s, w.code⟩ := by
  obtain ⟨s, hs, he⟩ := commit_some.mp h
  exact ⟨s, hs, (congrArg Prod.fst he).symm⟩

theorem invoke_changes {env : DeployerEnv own} (h : invoke env w c = some (w', o)) :
    Changes env w w' c := by
  cases c with
  | init admin secondApprover =>
    obtain ⟨_, hs, rfl⟩ := keep_some h
    simp only [init, bind_ok, require_ok, requireAuth_ok, pure_ok] at hs
    obtain ⟨_, hn, _, ha, rfl⟩ := hs
    exact .init hn ha rfl
  | proposeUpgrade admin newWasmHash =>
    obtain ⟨_, hs, rfl⟩ := keep_some h
    simp only [proposeUpgrade, getAdmin, bind_ok, require_ok, requireAuth_ok, expect_ok,
      pure_ok] at hs
    obtain ⟨_, ha, _, hr, _, rfl, rfl⟩ := hs
    exact .proposeUpgrade ⟨hr, ha⟩ rfl
  | confirmUpgrade approver newWasmHash =>
    obtain ⟨_, hs, he⟩ := commit_some.mp h
    cases he
    simp only [confirmUpgrade, getApprover, updateCurrentContractWasm, bind_ok, require_ok,
      requireAuth_ok, expect_ok, okOr_ok, u32Add_ok, demand_ok, pure_ok] at hs
    obtain ⟨_, ha, _, hr, _, rfl, _, hp, _, rfl, _, ⟨hlt, rfl⟩, _, hu, rfl⟩ := hs
    exact .confirmUpgrade ⟨hr, ha, hp, hlt, hu⟩ rfl
  | cancelUpgrade admin =>
    obtain ⟨_, hs, rfl⟩ := keep_some h
    simp only [cancelUpgrade, getAdmin, bind_ok, require_ok, requireAuth_ok, expect_ok,
      pure_ok] at hs
    obtain ⟨_, ha, _, hr, _, rfl, rfl⟩ := hs
    exact .cancelUpgrade ⟨hr, ha⟩ rfl
  | transferAdmin admin newAdmin =>
    obtain ⟨_, hs, rfl⟩ := keep_some h
    simp only [transferAdmin, getAdmin, bind_ok, require_ok, requireAuth_ok, expect_ok,
      pure_ok] at hs
    obtain ⟨_, ha, _, hr, _, rfl, rfl⟩ := hs
    exact .transferAdmin ⟨hr, ha⟩ rfl
  | setValue key value =>
    obtain ⟨_, hs, rfl⟩ := keep_some h
    cases hs
    exact .setValue rfl

theorem step_changes {builds : BytesN 32 → Bool} {i : DeployerEnv own × Call}
    (h : (machine builds own).step w i = some (w', o)) : Changes i.1 w w' i.2 := by
  change (if builds w.code then invoke i.1 w i.2 else none) = some (w', o) at h
  split at h
  · exact invoke_changes h
  · cases h

/-! Who may do what. -/

/-- The call makes the address the admin, and the one it takes over from authorized that. -/
def Appoints (admin : Address) (e : Step own) : Prop :=
  (∃ secondApprover, e.input.2 = .init admin secondApprover ∧
    e.input.1.authorized admin = true) ∨
  ∃ former, e.input.2 = .transferAdmin former admin ∧ ByAdmin e.input.1 former e.pre.storage

def Call.appoints : Call → Prop
  | .init _ _ => True
  | .transferAdmin _ _ => True
  | _ => False

/-- The admin proposes the code. -/
def Proposes (newWasmHash : BytesN 32) (e : Step own) : Prop :=
  ∃ admin, e.input.2 = .proposeUpgrade admin newWasmHash ∧
    ByAdmin e.input.1 admin e.pre.storage

/-- The call proposes code, or settles a proposal. -/
def Call.concerns : Call → Prop
  | .proposeUpgrade _ _ => True
  | .confirmUpgrade _ _ => True
  | .cancelUpgrade _ => True
  | _ => False

def Call.isInit : Call → Bool
  | .init _ _ => true
  | _ => false

/-- The second approver of the contract confirms the code that the admin proposed last, when the
proposal has been neither cancelled nor confirmed since. -/
structure Upgrades (e : Step own) (earlier : History own) (approver : Address)
    (newWasmHash : BytesN 32) : Prop where
  authorized : e.input.1.authorized approver = true
  named : ∃ q ∈ earlier, ∃ admin, q.input.2 = .init admin approver
  proposed : Since (Proposes newWasmHash) (fun q => q.input.2.concerns) earlier
  installed : e.post.code = newWasmHash
  uploaded : e.input.1.uploaded newWasmHash = true

/-- Every change of the code is an upgrade with the consent of both parties, and the admins follow
one another. -/
structure Consented (t : History own) : Prop where
  upgraded : ∀ later e earlier approver newWasmHash, t = later ++ e :: earlier →
    e.input.2 = .confirmUpgrade approver newWasmHash → Upgrades e earlier approver newWasmHash
  kept : ∀ e ∈ t, (∀ approver newWasmHash, e.input.2 ≠ .confirmUpgrade approver newWasmHash) →
    e.post.code = e.pre.code
  appointed : ∀ later e earlier admin, t = later ++ e :: earlier →
    e.pre.storage.admin = some admin → Since (Appoints admin) (fun q => q.input.2.appoints) earlier
  once : t.countP (fun e => e.input.2.isInit) ≤ 1

section
variable {env : DeployerEnv own}

/-- A pending proposal was made by the call, or was there before a call about something else. -/
theorem Changes.pending (h : Changes env w w' c)
    (hp : w'.storage.pendingUpgrade = some newWasmHash) :
    Proposes newWasmHash (⟨w, (env, c), o, w'⟩ : Step own) ∨
      ¬ c.concerns ∧ w.storage.pendingUpgrade = some newWasmHash := by
  cases h with
  | init _ _ hs | transferAdmin _ hs =>
    subst hs
    exact .inr ⟨id, hp⟩
  | setValue hs =>
    subst hs
    exact .inr ⟨id, hp⟩
  | proposeUpgrade ha hs =>
    subst hs
    cases hp
    exact .inl ⟨_, rfl, ha⟩
  | confirmUpgrade _ hs | cancelUpgrade _ hs =>
    subst hs
    cases hp

theorem Changes.appointed (h : Changes env w w' c) (ha : w'.storage.admin = some admin) :
    Appoints admin (⟨w, (env, c), o, w'⟩ : Step own) ∨
      ¬ c.appoints ∧ w.storage.admin = some admin := by
  cases h with
  | init _ hauth hs =>
    subst hs
    cases ha
    exact .inl (.inl ⟨_, rfl, hauth⟩)
  | transferAdmin hby hs =>
    subst hs
    cases ha
    exact .inl (.inr ⟨_, rfl, hby⟩)
  | proposeUpgrade _ hs | cancelUpgrade _ hs =>
    subst hs
    exact .inr ⟨id, ha⟩
  | confirmUpgrade _ hs =>
    subst hs
    exact .inr ⟨id, ha⟩
  | setValue hs =>
    subst hs
    exact .inr ⟨id, ha⟩

theorem Changes.names (h : Changes env w w' c)
    (ha : w'.storage.secondApprover = some approver) :
    (∃ admin, c = .init admin approver) ∨ w.storage.secondApprover = some approver := by
  cases h with
  | init _ _ hs =>
    subst hs
    cases ha
    exact .inl ⟨_, rfl⟩
  | proposeUpgrade _ hs | cancelUpgrade _ hs | transferAdmin _ hs =>
    subst hs
    exact .inr ha
  | confirmUpgrade _ hs =>
    subst hs
    exact .inr ha
  | setValue hs =>
    subst hs
    exact .inr ha

theorem Changes.installs (h : Changes env w w' c) :
    w'.code = w.code ∨ ∃ approver, c = .confirmUpgrade approver w'.code := by
  cases h with
  | confirmUpgrade _ hs =>
    subst hs
    exact .inr ⟨_, rfl⟩
  | init _ _ hs | proposeUpgrade _ hs | cancelUpgrade _ hs | transferAdmin _ hs =>
    subst hs
    exact .inl rfl
  | setValue hs =>
    subst hs
    exact .inl rfl

theorem Changes.admin_stays (h : Changes env w w' c) (ha : w.storage.admin ≠ none) :
    w'.storage.admin ≠ none := by
  cases h with
  | init hn _ _ => exact absurd hn ha
  | transferAdmin _ hs =>
    subst hs
    nofun
  | proposeUpgrade _ hs | cancelUpgrade _ hs =>
    subst hs
    exact ha
  | confirmUpgrade _ hs =>
    subst hs
    exact ha
  | setValue hs =>
    subst hs
    exact ha

end

section
variable {builds : BytesN 32 → Bool} {code : BytesN 32}

theorem pending_since (h : (machine builds own).Run (deployed code) t w)
    (hp : w.storage.pendingUpgrade = some newWasmHash) :
    Since (Proposes newWasmHash) (fun e => e.input.2.concerns) t := by
  apply h.since_of (C := fun _ => True)
    (f := fun w => w.storage.pendingUpgrade = some newWasmHash) (fun _ _ => True.intro)
  · nofun
  · rintro w ⟨env, c⟩ w' o _ hs _ hp
    exact (step_changes hs).pending hp
  · exact hp

theorem appointed_since (h : (machine builds own).Run (deployed code) t w)
    (ha : w.storage.admin = some admin) :
    Since (Appoints admin) (fun e => e.input.2.appoints) t := by
  apply h.since_of (C := fun _ => True) (f := fun w => w.storage.admin = some admin)
    (fun _ _ => True.intro)
  · nofun
  · rintro w ⟨env, c⟩ w' o _ hs _ ha
    exact (step_changes hs).appointed ha
  · exact ha

theorem approver_named (h : (machine builds own).Run (deployed code) t w)
    (ha : w.storage.secondApprover = some approver) :
    ∃ e ∈ t, ∃ admin, e.input.2 = .init admin approver := by
  apply Since.happened (q := fun _ => False)
  apply h.since_of (C := fun _ => True) (f := fun w => w.storage.secondApprover = some approver)
    (fun _ _ => True.intro)
  · nofun
  · intro w i w' o _ hs _ ha
    exact ((step_changes hs).names ha).imp_right fun ha => ⟨id, ha⟩
  · exact ha

theorem init_closes : (machine builds own).Closes (deployed code) (fun e => e.input.2.isInit)
    (fun w => w.storage.admin ≠ none) where
  stays _ hs ha := (step_changes hs).admin_stays ha
  needs {w i w' o} _ hs hp := by
    obtain ⟨env, c⟩ := i
    cases step_changes hs with
    | init hn _ _ => exact fun hne => hne hn
    | _ => cases hp
  sets {w i w' o} _ hs hp := by
    obtain ⟨env, c⟩ := i
    cases step_changes hs with
    | init _ _ hpost =>
      subst hpost
      nofun
    | _ => cases hp

/-- In every run the code changes only with the consent of the second approver that `init` named
and of the admin of the time. -/
theorem upgrades_consented (h : (machine builds own).Run (deployed code) t w) : Consented t := by
  constructor
  · rintro later e earlier approver newWasmHash rfl hi
    obtain ⟨hrun, hs⟩ := h.upTo
    have hch := step_changes hs
    rw [hi] at hch
    cases hch with
    | confirmUpgrade ha hpost =>
      exact ⟨ha.authorized, approver_named hrun ha.role, pending_since hrun ha.pending,
        congrArg Instance.code hpost, ha.uploaded⟩
  · intro e he hne
    rcases (step_changes (h.committed he).2).installs with hsame | ⟨approver, hc⟩
    · exact hsame
    · exact absurd hc (hne approver _)
  · rintro later e earlier admin rfl ha
    exact appointed_since h.upTo.1 ha
  · exact (h.once init_closes).1

end

def hash (n : UInt8) : BytesN 32 := .replicate 32 n

def sampleBuilds (newWasmHash : BytesN 32) : Bool := newWasmHash = hash 7 ∨ newWasmHash = hash 8

/-- Everyone authorizes the call, and the host has the builds of the contract. -/
def signedEnv (timestamp : Nat) : DeployerEnv ⟨0⟩ := ⟨.signed ⟨0⟩ timestamp, sampleBuilds⟩

/-- A proposal is confirmed after the admin has changed. -/
def upgradeCalls : List (DeployerEnv ⟨0⟩ × Call) :=
  [(signedEnv 0, .init ⟨1⟩ ⟨2⟩), (signedEnv 1, .setValue [1] [2]),
    (signedEnv 2, .proposeUpgrade ⟨1⟩ (hash 8)), (signedEnv 3, .transferAdmin ⟨1⟩ ⟨3⟩),
    (signedEnv 4, .confirmUpgrade ⟨2⟩ (hash 8))]

def perform (cs : List (DeployerEnv ⟨0⟩ × Call)) : History ⟨0⟩ × Instance :=
  (machine sampleBuilds ⟨0⟩).replay (deployed (hash 7)) cs

theorem upgrades_consented_transferred : Consented (perform upgradeCalls).1 ∧
    (perform upgradeCalls).2.code = hash 8 :=
  ⟨upgrades_consented ((machine sampleBuilds ⟨0⟩).run_replay (deployed (hash 7)) upgradeCalls),
    by decide +kernel⟩

end Shelterflex.UpgradeableProxy
