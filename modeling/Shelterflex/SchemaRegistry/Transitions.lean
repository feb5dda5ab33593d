import Shelterflex.SchemaRegistry.Model

/-! Which transitions a lookup finds. -/

namespace Shelterflex.SchemaRegistry
open Lib
set_option autoImplicit true

abbrev Step (own : Address) := Event State (LedgerEnv own × Call) (Option MigrationReceipt)

abbrev History (own : Address) := List (Step own)

def SchemaVersion.packed (v : SchemaVersion) : Nat :=
  v.major * 1000000 + v.minor * 1000 + v.patch

/-- The components are in the documented range. -/
def SchemaVersion.InRange (v : SchemaVersion) : Prop :=
  v.major ≤ 999 ∧ v.minor ≤ 999 ∧ v.patch ≤ 999

theorem versionId_ok : versionId v = .ok n ↔ v.packed < 2 ^ 32 ∧ v.packed = n := by
  simp only [versionId, bind_ok, u32Mul_ok, u32Add_ok, SchemaVersion.packed]
  constructor
  · rintro ⟨_, ⟨_, rfl⟩, _, ⟨_, rfl⟩, _, ⟨_, rfl⟩, h⟩
    exact h
  · intro h
    obtain ⟨hlt, rfl⟩ := h
    have hsum : v.major * 1000000 + v.minor * 1000 < 2 ^ 32 :=
      lt_of_le_of_lt (Nat.le_add_right _ _) hlt
    have hmajor := lt_of_le_of_lt (Nat.le_add_right _ _) hsum
    have hminor := lt_of_le_of_lt (Nat.le_add_left _ _) hsum
    exact ⟨_, ⟨hmajor, rfl⟩, _, ⟨hminor, rfl⟩, _, ⟨hsum, rfl⟩, hlt, rfl⟩

/-- In the documented range the number determines the version. -/
theorem packed_inj {v w : SchemaVersion} (hv : v.InRange) (hw : w.InRange)
    (h : v.packed = w.packed) : v = w := by
  obtain ⟨a, b, c⟩ := v
  obtain ⟨a', b', c'⟩ := w
  simp only [SchemaVersion.InRange, SchemaVersion.packed] at hv hw h
  have ha : a = a' := by omega
  have hb : b = b' := by omega
  have hc : c = c' := by omega
  rw [ha, hb, hc]

/-- The packed numbers of a transition. -/
def packedKey (source target : SchemaVersion) : Nat × Nat := (source.packed, target.packed)

/-- Versions that the calls accept: their numbers fit. -/
def Packable (source target : SchemaVersion) : Prop :=
  source.packed < 2 ^ 32 ∧ target.packed < 2 ^ 32

instance : Decidable (Packable source target) := inferInstanceAs (Decidable (_ ∧ _))

theorem transitionKey_ok :
    transitionKey source target = .ok k ↔ Packable source target ∧ packedKey source target = k := by
  simp only [transitionKey, bind_ok, versionId_ok, pure_ok]
  constructor
  · rintro ⟨_, ⟨hs, rfl⟩, _, ⟨ht, rfl⟩, h⟩
    exact ⟨⟨hs, ht⟩, h⟩
  · rintro ⟨⟨hs, ht⟩, h⟩
    exact ⟨_, ⟨hs, rfl⟩, _, ⟨ht, rfl⟩, h⟩

theorem transitionKey_eq (h : Packable source target) :
    transitionKey source target = .ok (packedKey source target) :=
  transitionKey_ok.mpr ⟨h, rfl⟩

/-- What `executeMigration` has checked, and what it writes. -/
structure Executes (env : LedgerEnv own) (r : MigrationReceipt) (s s' : State) : Prop where
  starts : registryVersion s = r.source
  supported : (getMatrix s).get (packedKey r.source r.target) ≠ none
  unexecuted : s.migrationReceipt.get (packedKey r.source r.target) = none
  forward : r.source.packed < r.target.packed
  fits : s.nextMigrationId.getD 0 + 1 < 2 ^ 32
  next : r.migrationId = s.nextMigrationId.getD 0 + 1
  ledger : r.ledger = env.sequence
  entry : s' = { s with
    registrySchemaVersion := some r.target
    nextMigrationId := some r.migrationId
    migrationReceipt := s.migrationReceipt.set (packedKey r.source r.target) r
    migrationReceiptById := s.migrationReceiptById.set r.migrationId r }

inductive Changes (env : LedgerEnv own) (s s' : State) : Call → Option MigrationReceipt → Prop where
  | init (hn : s.admin = none)
      (hs : s' = { s with
        registrySchemaVersion := some initialVersion
        admin := some admin
        compatibilityMatrix := some .empty }) :
      Changes env s s' (.init admin) none
  | registerTransition (ha : s.admin = some caller) (hne : info.source ≠ info.target)
      (hp : Packable info.source info.target)
      (hs : s' = { s with
        compatibilityMatrix :=
          some ((getMatrix s).set (packedKey info.source info.target) info) }) :
      Changes env s s' (.registerTransition caller info) none
  | executeMigration (h : Executes env r s s') :
      Changes env s s' (.executeMigration r.executedBy r.source r.target r.verificationHash)
        (some r)

theorem requireAdmin_ok : requireAdmin caller s = .ok u ↔ s.admin = some caller := by
  simp only [requireAdmin, bind_ok, okOr_ok, require_ok]
  constructor
  · rintro ⟨_, hr, rfl⟩
    exact hr
  · exact fun h => ⟨_, h, rfl⟩

theorem requireVersion_ok : requireVersion source s = .ok u ↔ registryVersion s = source := by
  unfold requireVersion
  split
  · rename_i hne
    simp only [bind_ok, hne, iff_false]
    rintro ⟨_, _, h⟩
    cases h
  · rename_i h
    exact ⟨fun _ => not_not.mp h, fun _ => rfl⟩

theorem requireInvariants_ok (h : requireInvariants source target = .ok u) :
    source.packed < target.packed := by
  simp only [requireInvariants, checkInvariants, bind_ok, transitionKey_ok] at h
  obtain ⟨_, ⟨_, ⟨_, rfl⟩, h⟩, hp⟩ := h
  rw [require_ok] at hp
  subst hp
  split at h
  · cases h
  · rename_i hlt
    exact not_le.mp hlt

section
variable {env : LedgerEnv own}

theorem executeMigration_ok
    (h : executeMigration env caller source target verificationHash s = .ok (r, s')) :
    Executes env r s s' ∧ r.executedBy = caller ∧ r.source = source ∧ r.target = target ∧
      r.verificationHash = verificationHash := by
  simp only [executeMigration, nextMigrationId, bind_ok, transitionKey_ok, requireVersion_ok,
    okOr_ok, u32Add_ok, pure_ok] at h
  obtain ⟨_, _, _, ⟨_, rfl⟩, _, hv, info, hi, _, hn, _, _, _, hf, _, ⟨_, ⟨hlt, rfl⟩, rfl⟩, h⟩ := h
  obtain ⟨rfl, rfl⟩ := Prod.mk.inj h
  have hnone := Option.isNone_iff_eq_none.mp (Option.isSome_eq_false_iff.mp (require_ok.mp hn))
  exact ⟨⟨hv, by simp [hi], hnone, requireInvariants_ok hf, hlt, rfl, rfl, rfl⟩, rfl, rfl, rfl, rfl⟩

theorem invoke_changes (h : invoke env s c = some (s', o)) : Changes env s s' c o := by
  cases c with
  | init admin =>
    obtain ⟨_, hs, he⟩ := commit_some.mp h
    cases he
    simp only [init, bind_ok, demand_ok, pure_ok] at hs
    obtain ⟨_, hn, rfl⟩ := hs
    exact .init hn rfl
  | registerTransition caller info =>
    obtain ⟨_, hs, he⟩ := commit_some.mp h
    cases he
    simp only [registerTransition, bind_ok, requireAdmin_ok, require_ok, transitionKey_ok,
      pure_ok] at hs
    obtain ⟨_, _, _, ha, _, hne, _, ⟨hp, rfl⟩, rfl⟩ := hs
    exact .registerTransition ha hne hp rfl
  | executeMigration caller source target verificationHash =>
    obtain ⟨⟨r, _⟩, hs, he⟩ := commit_some.mp h
    cases he
    obtain ⟨hx, rfl, rfl, rfl, rfl⟩ := executeMigration_ok hs
    exact .executeMigration hx

end

/-- The transition that a call registers. -/
def registration (e : Step own) : Option CompatibilityMeta :=
  match e.input.2 with
  | .registerTransition _ info => some info
  | _ => none

def registrations (t : History own) : List CompatibilityMeta := t.filterMap registration

def Registered (source target : SchemaVersion) (t : History own) : Prop :=
  ∃ info ∈ registrations t, info.source = source ∧ info.target = target

theorem registration_some {e : Step own} :
    registration e = some info ↔ ∃ caller, e.input.2 = .registerTransition caller info := by
  unfold registration
  constructor
  · intro h
    split at h
    · rename_i caller info' hc
      cases h
      exact ⟨caller, hc⟩
    · cases h
  · rintro ⟨caller, h⟩
    rw [h]

theorem registrations_skip {e : Step own} (h : registration e = none) :
    registrations (e :: t) = registrations t := by
  rw [registrations, List.filterMap_cons_none h, registrations]

theorem registrations_register {e : Step own} (h : registration e = some info) :
    registrations (e :: t) = info :: registrations t := by
  rw [registrations, List.filterMap_cons_some h, registrations]

/-- The matrix has what was registered, under the packed numbers. -/
structure Catalogue (t : History own) (s : State) : Prop where
  started : s.admin = none → registrations t = []
  sound : ∀ k info, (getMatrix s).get k = some info →
    info ∈ registrations t ∧ packedKey info.source info.target = k
  complete : ∀ info ∈ registrations t, (getMatrix s).get (packedKey info.source info.target) ≠ none

theorem Catalogue.register {t' : History own} (hc : Catalogue t s)
    (hr : registrations t' = info :: registrations t) (ha : s'.admin ≠ none)
    (hm : getMatrix s' = (getMatrix s).set (packedKey info.source info.target) info) :
    Catalogue t' s' := by
  refine ⟨fun hn => absurd hn ha, ?_, ?_⟩
  · intro k info' hk
    rw [hm, Store.get_set] at hk
    rw [hr]
    split at hk
    · rename_i he
      cases hk
      exact ⟨List.mem_cons_self, he.symm⟩
    · obtain ⟨hmem, he⟩ := hc.sound k info' hk
      exact ⟨List.mem_cons_of_mem _ hmem, he⟩
  · intro info' hmem
    rw [hm, Store.get_set]
    split
    · nofun
    · rename_i hne
      rw [hr] at hmem
      rcases List.mem_cons.mp hmem with rfl | hmem
      · exact absurd rfl hne
      · exact hc.complete info' hmem

theorem Catalogue.start {t' : History own} (hr : registrations t' = [])
    (hm : getMatrix s' = .empty) : Catalogue t' s' := by
  refine ⟨fun _ => hr, ?_, ?_⟩
  · intro k info hk
    rw [hm] at hk
    cases hk
  · intro info hmem
    rw [hr] at hmem
    cases hmem

theorem Catalogue.keep {t' : History own} (hc : Catalogue t s)
    (hr : registrations t' = registrations t) (ha : s'.admin = s.admin)
    (hm : getMatrix s' = getMatrix s) : Catalogue t' s' := by
  constructor
  · rw [hr, ha]
    exact hc.started
  · rw [hr, hm]
    exact hc.sound
  · rw [hr, hm]
    exact hc.complete

theorem Changes.catalogue {env : LedgerEnv own} (h : Changes env s s' c o) (hc : Catalogue t s) :
    Catalogue ((⟨s, (env, c), o, s'⟩ : Step own) :: t) s' := by
  cases h with
  | init hn hs =>
    apply Catalogue.start
    · rw [registrations_skip rfl]
      exact hc.started hn
    · rw [hs]
      rfl
  | registerTransition ha _ _ hs =>
    apply hc.register (registrations_register rfl)
    · rw [hs, ha]
      nofun
    · rw [hs]
      rfl
  | executeMigration h =>
    apply hc.keep (registrations_skip rfl)
    · rw [h.entry]
    · rw [h.entry]
      rfl

theorem run_catalogue (h : (machine own).Run .fresh t s) : Catalogue t s := by
  apply h.invariant (.start rfl rfl)
  rintro t s ⟨env, c⟩ s' o hc hs
  exact (invoke_changes hs).catalogue hc

section
variable (source target : SchemaVersion)

/-- The lookups answer yes exactly for what was registered, and no registration of another pair
takes the place of this one. -/
structure Exact (t : History own) (s : State) : Prop where
  supported : isTransitionSupported source target s = .ok true ↔ Registered source target t
  dryRun : dryRun source target s ≠ .error (.err .unsupportedTransition) ↔
    Registered source target t
  execute : ∀ (env : LedgerEnv own) caller verificationHash, env.authorized caller = true →
    registryVersion s = source →
    (executeMigration env caller source target verificationHash s ≠
      .error (.err .unsupportedTransition) ↔ Registered source target t)
  kept : ∀ e ∈ t, ∀ caller info, e.input.2 = .registerTransition caller info →
    (info.source, info.target) ≠ (source, target) →
    lookupTransition source target e.post = lookupTransition source target e.pre

/-- No other transition that was registered has the numbers of this one. -/
def Unshared (t : History own) : Prop :=
  ∀ info ∈ registrations t, packedKey info.source info.target = packedKey source target →
    info.source = source ∧ info.target = target

end

theorem lookupTransition_eq (h : Packable source target) (s : State) :
    lookupTransition source target s = .ok ((getMatrix s).get (packedKey source target)) := by
  rw [lookupTransition, bind_of_ok (transitionKey_eq h)]
  rfl

theorem isTransitionSupported_iff (h : Packable source target) :
    isTransitionSupported source target s = .ok true ↔
      (getMatrix s).get (packedKey source target) ≠ none := by
  rw [isTransitionSupported, bind_of_ok (lookupTransition_eq h s), pure_ok]
  exact Option.isSome_iff_ne_none

theorem versionId_no_err : Avoids (.err e) (versionId v) := by
  apply u32Mul_no_err.bind
  intro major _
  apply u32Mul_no_err.bind
  intro minor _
  apply u32Add_no_err.bind
  intro n _
  exact u32Add_no_err

theorem transitionKey_no_err : Avoids (.err e) (transitionKey source target) := by
  apply versionId_no_err.bind
  intro n _
  apply versionId_no_err.bind
  intro m _
  exact avoids_pure

theorem checkInvariants_no_err : Avoids (.err e) (checkInvariants source target) := by
  apply transitionKey_no_err.bind
  intro k _
  dsimp only
  split
  · exact avoids_pure
  · split
    · exact avoids_pure
    · exact avoids_pure

theorem requireInvariants_avoids (hne : .invariantViolation ≠ e) :
    Avoids (.err e) (requireInvariants source target) := by
  apply checkInvariants_no_err.bind
  intro r _
  exact require_avoids_err hne

theorem requireDryRun_avoids (hne : .invariantViolation ≠ e) :
    Avoids (.err e) (requireDryRun info source target) := by
  unfold requireDryRun
  split
  · exact requireInvariants_avoids hne
  · exact avoids_pure

theorem checked_avoids (hne : .invariantViolation ≠ e) {k : Nat × State → Result α}
    (hk : ∀ r, Avoids (.err e) (k r)) : Avoids (.err e) (do
      requireDryRun info source target
      requireInvariants source target
      let r ← nextMigrationId s
      k r) := by
  apply Avoids.bind (requireDryRun_avoids hne)
  intro _ _
  apply Avoids.bind (requireInvariants_avoids hne)
  intro _ _
  apply (u32Add_no_err.bind fun _ _ => avoids_pure).bind
  intro r _
  exact hk r

theorem dryRun_iff (h : Packable source target) :
    dryRun source target s ≠ .error (.err .unsupportedTransition) ↔
      (getMatrix s).get (packedKey source target) ≠ none := by
  rw [dryRun, bind_of_ok (lookupTransition_eq h s)]
  cases (getMatrix s).get (packedKey source target) with
  | none =>
    have hn : ¬ (none : Option CompatibilityMeta).isSome = true := nofun
    rw [require_bind_of_not hn]
    exact iff_of_false (fun hn => hn rfl) (fun hn => hn rfl)
  | some info =>
    have hs : (some info).isSome = true := rfl
    rw [require_bind_of hs]
    exact iff_of_true checkInvariants_no_err nofun

theorem executeMigration_iff {env : LedgerEnv own} (h : Packable source target)
    (ha : env.authorized caller = true) (hv : registryVersion s = source) :
    executeMigration env caller source target verificationHash s ≠
        .error (.err .unsupportedTransition) ↔
      (getMatrix s).get (packedKey source target) ≠ none := by
  rw [executeMigration, bind_of_ok (requireAuth_ok (u := ()).mpr ha),
    bind_of_ok (transitionKey_eq h), bind_of_ok (requireVersion_ok (u := ()).mpr hv)]
  cases (getMatrix s).get (packedKey source target) with
  | none => exact iff_of_false (fun hn => hn rfl) (fun hn => hn rfl)
  | some info =>
    refine iff_of_true ?_ nofun
    apply Avoids.bind (x := okOr (some info) .unsupportedTransition) nofun
    intro info _
    apply Avoids.bind (require_avoids_err (by decide))
    intro _ _
    exact checked_avoids (by decide) fun _ => avoids_pure

theorem Catalogue.stored_iff (hc : Catalogue t s) (hu : Unshared source target t) :
    (getMatrix s).get (packedKey source target) ≠ none ↔ Registered source target t := by
  constructor
  · intro hs
    obtain ⟨info, hi⟩ := Option.ne_none_iff_exists'.mp hs
    obtain ⟨hmem, hk⟩ := hc.sound _ info hi
    exact ⟨info, hmem, hu info hmem hk⟩
  · rintro ⟨info, hmem, rfl, rfl⟩
    exact hc.complete info hmem

theorem Unshared.kept {t : History own} (hu : Unshared source target t)
    (hp : Packable source target) (h : (machine own).Run .fresh t s) {e : Step own} (he : e ∈ t)
    (hi : e.input.2 = .registerTransition caller info)
    (hne : (info.source, info.target) ≠ (source, target)) :
    lookupTransition source target e.post = lookupTransition source target e.pre := by
  have hmem : info ∈ registrations t :=
    List.mem_filterMap.mpr ⟨e, he, registration_some.mpr ⟨_, hi⟩⟩
  have hk : packedKey source target ≠ packedKey info.source info.target := by
    intro hk
    obtain ⟨hs, ht⟩ := hu info hmem hk.symm
    exact hne (Prod.ext hs ht)
  have hch := invoke_changes (h.committed he).2
  obtain ⟨s₁, ⟨env, c⟩, o, s₂⟩ := e
  obtain rfl : c = .registerTransition caller info := hi
  cases hch with
  | registerTransition _ _ _ hs =>
    rw [lookupTransition_eq hp, lookupTransition_eq hp, hs]
    exact congrArg Except.ok (Store.get_set_of_ne _ _ hk)

theorem exact_of_unshared (h : (machine own).Run .fresh t s) (hp : Packable source target)
    (hu : Unshared source target t) : Exact source target t s := by
  have hs := (run_catalogue h).stored_iff hu
  constructor
  · exact (isTransitionSupported_iff hp).trans hs
  · exact (dryRun_iff hp).trans hs
  · exact fun env caller hash ha hv => (executeMigration_iff hp ha hv).trans hs
  · exact fun e he caller info hi hne => hu.kept hp h he hi hne

/-- Where registrations of other pairs change nothing, a lookup finds its own pair. -/
theorem found_of_kept (h : (machine own).Run .fresh t s) (hp : Packable source target)
    (hk : ∀ e ∈ t, ∀ caller info, e.input.2 = .registerTransition caller info →
      (info.source, info.target) ≠ (source, target) →
      lookupTransition source target e.post = lookupTransition source target e.pre) :
    ∀ info, lookupTransition source target s = .ok (some info) →
      info.source = source ∧ info.target = target := by
  apply h.invariant_of (C := fun e => ∀ caller info, e.input.2 = .registerTransition caller info →
    (info.source, info.target) ≠ (source, target) →
    lookupTransition source target e.post = lookupTransition source target e.pre)
    (P := fun _ s => ∀ info, lookupTransition source target s = .ok (some info) →
      info.source = source ∧ info.target = target) hk
  · intro info hi
    rw [lookupTransition_eq hp] at hi
    cases hi
  · rintro t s ⟨env, c⟩ s' o ih hs hkept info hi
    cases invoke_changes hs with
    | init _ he =>
      rw [lookupTransition_eq hp, he] at hi
      cases hi
    | @registerTransition caller info' _ _ _ hm =>
      by_cases he : (info'.source, info'.target) = (source, target)
      · obtain ⟨rfl, rfl⟩ := Prod.mk.inj he
        rw [lookupTransition_eq hp, hm] at hi
        have hget := Option.some.inj ((Store.get_set_self _ _ _).symm.trans (Except.ok.inj hi))
        rw [← hget]
        exact ⟨rfl, rfl⟩
      · exact ih info ((hkept _ _ rfl he).symm.trans hi)
    | executeMigration h =>
      rw [lookupTransition_eq hp, h.entry] at hi
      apply ih info
      rw [lookupTransition_eq hp]
      exact hi

theorem lookup_registered {e : Step own} (h : (machine own).step e.pre e.input =
    some (e.post, e.output)) (hi : e.input.2 = .registerTransition caller info) :
    lookupTransition info.source info.target e.post = .ok (some info) := by
  have hch := invoke_changes h
  rw [hi] at hch
  generalize e.output = o at hch
  cases hch with
  | registerTransition _ _ hp hs =>
    rw [lookupTransition_eq hp, hs]
    exact congrArg Except.ok (Store.get_set_self _ _ _)

theorem lookup_congr (hp : Packable source target)
    (hk : packedKey source' target' = packedKey source target) :
    lookupTransition source' target' s = lookupTransition source target s := by
  have hp' : Packable source' target' := by
    rwa [Packable, (Prod.mk.inj hk).1, (Prod.mk.inj hk).2]
  rw [lookupTransition_eq hp, lookupTransition_eq hp', hk]

/-- The lookups are exact for a pair of versions when no other registered pair has its numbers, and
only then. -/
theorem exact_iff (h : (machine own).Run .fresh t s) (hp : Packable source target) :
    Exact source target t s ↔ Unshared source target t := by
  constructor
  · intro hx info hmem hk
    obtain ⟨e, he, hr⟩ := List.mem_filterMap.mp hmem
    obtain ⟨caller, hi⟩ := registration_some.mp hr
    obtain ⟨later, earlier, rfl⟩ := List.append_of_mem he
    obtain ⟨hrun, hs⟩ := h.upTo
    -- the registration itself would put another pair in the place of this one
    apply found_of_kept (.commit hrun hs) hp
    · intro e' he'
      exact hx.kept e' (List.mem_append_right _ he')
    · exact (lookup_congr hp hk).symm.trans (lookup_registered hs hi)
  · exact exact_of_unshared h hp

/-- In the documented range every lookup is exact. -/
theorem exact_of_inRange (h : (machine own).Run .fresh t s) (hs : source.InRange)
    (ht : target.InRange)
    (hr : ∀ info ∈ registrations t, info.source.InRange ∧ info.target.InRange) :
    Exact source target t s := by
  have hp {v : SchemaVersion} (hv : v.InRange) : v.packed < 2 ^ 32 := by
    obtain ⟨a, b, c⟩ := hv
    unfold SchemaVersion.packed
    omega
  apply exact_of_unshared h ⟨hp hs, hp ht⟩
  intro info hmem hk
  obtain ⟨hsource, htarget⟩ := hr info hmem
  obtain ⟨hks, hkt⟩ := Prod.mk.inj hk
  exact ⟨packed_inj hsource hs hks, packed_inj htarget ht hkt⟩

def callEnv : LedgerEnv ⟨0⟩ := ⟨.signed ⟨0⟩ 10, 2⟩

def minorBump : CompatibilityMeta := ⟨⟨1, 0, 0⟩, ⟨1, 1, 0⟩, false, []⟩

def bumpCalls : List (LedgerEnv ⟨0⟩ × Call) :=
  [(callEnv, .init ⟨1⟩), (callEnv, .registerTransition ⟨1⟩ minorBump)]

def perform (cs : List (LedgerEnv ⟨0⟩ × Call)) : History ⟨0⟩ × State :=
  (machine ⟨0⟩).replay .fresh cs

theorem exact_iff_bump :
    Exact ⟨1, 0, 0⟩ ⟨1, 1, 0⟩ (perform bumpCalls).1 (perform bumpCalls).2 ↔
      Unshared ⟨1, 0, 0⟩ ⟨1, 1, 0⟩ (perform bumpCalls).1 :=
  exact_iff ((machine ⟨0⟩).run_replay .fresh bumpCalls) (by decide)

/-- The patch `1000` of one version has the number of the next minor one. -/
theorem patch_collides :
    ¬ ∀ (t : History ⟨0⟩) s, (machine ⟨0⟩).Run .fresh t s → ∀ source target,
      Packable source target → Exact source target t s := by
  intro hall
  have hx := hall _ _ ((machine ⟨0⟩).run_replay .fresh bumpCalls) ⟨1, 0, 0⟩ ⟨1, 0, 1000⟩ (by decide)
  obtain ⟨info, hmem, _, ht⟩ := hx.supported.mp rfl
  cases List.mem_singleton.mp hmem
  cases ht

end Shelterflex.SchemaRegistry
