import Mathlib.Data.List.Nodup
import Shelterflex.Host.Transaction
import Shelterflex.RentPayments.Bookkeeping
import Shelterflex.RentPayments.Listing

/-! A client reads the receipts of a deal page by page, while others create receipts. -/

namespace Shelterflex.RentPayments
open Lib
set_option autoImplicit true

/-- The page after the pages read so far, latest first, with the cursor of the latest. -/
inductive NextPage (dealId : DealId) (s : State) : List ReceiptPage → ReceiptPage → Prop where
  | first (hl : listReceiptsByDeal dealId limit none s = .ok page) : NextPage dealId s [] page
  | next (hn : p.hasNext = true)
      (hl : listReceiptsByDeal dealId limit (some p.nextCursor) s = .ok page) :
      NextPage dealId s (p :: ps) page

/-- A run of the contract and the pages that a client read in it, latest first. -/
inductive Session (own : Address) (dealId : DealId) :
    History own → State → List ReceiptPage → Prop where
  | start : Session own dealId [] .fresh []
  | call (h : Session own dealId t s ps) (hs : (machine own).step s i = some (s', o)) :
      Session own dealId (⟨s, i, o, s'⟩ :: t) s' ps
  | page (h : Session own dealId t s ps) (hp : NextPage dealId s ps page) :
      Session own dealId t s (page :: ps)

/-- The receipts of the pages, in the order in which they were read. -/
def pagesRead (ps : List ReceiptPage) : List Receipt := ps.reverse.flatMap (·.receipts)

/-- What a client knows once it has read a page. -/
structure Complete (dealId : DealId) (s : State) (page : ReceiptPage) (ps : List ReceiptPage) :
    Prop where
  increasing : (pagesRead (page :: ps)).Pairwise Receipt.Before
  stored : ∀ r ∈ pagesRead (page :: ps), r ∈ getReceipts s dealId
  all : page.hasNext = false → ∀ r ∈ getReceipts s dealId, (pagesRead (page :: ps)).count r = 1
  hasNext : page.hasNext = true ↔ ∃ r ∈ getReceipts s dealId,
    ∀ a, (pagesRead (page :: ps)).getLast? = some a → a.Before r

theorem pagesRead_cons (page : ReceiptPage) (ps : List ReceiptPage) :
    pagesRead (page :: ps) = pagesRead ps ++ page.receipts := by
  rw [pagesRead, List.reverse_cons, List.flatMap_append, pagesRead]
  simp

theorem Session.run (h : Session own dealId t s ps) : (machine own).Run .fresh t s := by
  induction h with
  | start => exact .start
  | call _ hs ih => exact .commit ih hs
  | page _ _ ih => exact ih

theorem Session.after (h : Session own dealId t s ps) (hr : (machine own).Run s t' s') :
    Session own dealId (t' ++ t) s' ps := by
  induction hr with
  | start => exact h
  | commit _ hs ih => exact .call ih hs
  | rollback _ _ ih => exact ih

theorem created_time (h : (machine own).Run .fresh t s) (hr : r ∈ created t) :
    ∃ e ∈ t, r.timestamp = e.input.1.timestamp := by
  obtain ⟨e, he, ho⟩ := List.mem_filterMap.mp (List.mem_reverse.mp hr)
  refine ⟨e, he, ?_⟩
  obtain ⟨pre, ⟨env, c⟩, o, post⟩ := e
  cases ho
  have hch : Changes env pre post c (some r) := invoke_changes (h.committed he).2
  cases hch with
  | create hc => exact hc.timestamp

theorem Creates.after_created {e : Event State (Env own × Call) (Option Receipt)}
    (hc : Creates e.input.1 dealId reference e.pre e.post r) (he : e.output = some r)
    (hr : (machine own).Run .fresh t e.pre) (ht : TimeOrdered (e :: t))
    (hb : bumps (e :: t) < 2 ^ 64) : ∀ r' ∈ created t, r'.Before r := by
  intro r' hr'
  have hl := run_ledger hr ((bumps_le_cons e t).trans_lt hb)
  obtain ⟨htx, hlt⟩ := hl.txId_step hc he hb
  obtain ⟨p, hp, htime⟩ := created_time hr hr'
  obtain ⟨n, hn, htx'⟩ := hl.numbered r' hr'
  have hle : r'.timestamp ≤ r.timestamp := by
    rw [htime, hc.timestamp]
    exact (timeOrdered_cons.mp ht).1 p hp
  rcases hle.lt_or_eq with hlt' | heq
  · exact .inl hlt'
  · refine .inr ⟨heq, ?_⟩
    rw [htx, htx', heq]
    exact txIdBytes_lt (hn.trans_lt hlt) hb

theorem created_ordered (h : (machine own).Run .fresh t s) (hc : TimeOrdered t)
    (hb : bumps t < 2 ^ 64) : (created t).Pairwise Receipt.Before := by
  induction h with
  | start => exact .nil
  | rollback _ _ ih => exact ih hc hb
  | commit hr hs ih =>
    have hold := ih (timeOrdered_cons.mp hc).2 ((bumps_le_cons _ _).trans_lt hb)
    rename_i t s i s' o
    obtain ⟨env, c⟩ := i
    have hch : Changes env s s' c o := invoke_changes hs
    cases hch with
    | quiet _ _ _ => exact hold
    | create hcr =>
      rw [created_cons_some rfl]
      refine List.pairwise_append.mpr ⟨hold, List.pairwise_singleton _ _, fun r' hr' r'' hr'' => ?_⟩
      cases List.mem_singleton.mp hr''
      exact Creates.after_created hcr rfl hr hc hb r' hr'

theorem stored_ordered (h : (machine own).Run .fresh t s) (hc : TimeOrdered t)
    (hb : bumps t < 2 ^ 64) (dealId : DealId) : (getReceipts s dealId).Pairwise Receipt.Before := by
  rw [(run_ledger h hb).stored]
  exact (created_ordered h hc hb).filter _

theorem Creates.prefix (h : Creates env d reference s s' r) (dealId : DealId) :
    getReceipts s dealId <+: getReceipts s' dealId := by
  by_cases hd : dealId = d
  · subst hd
    rw [h.stored_self]
    exact List.prefix_append _ _
  · rw [h.stored_other hd]

theorem stored_grows (hs : (machine own).step s i = some (s', o)) (dealId : DealId) :
    getReceipts s dealId <+: getReceipts s' dealId := by
  obtain ⟨env, c⟩ := i
  have hch : Changes env s s' c o := invoke_changes hs
  cases hch with
  | quiet hr _ _ =>
    rw [getReceipts, getReceipts, hr]
  | create hcr => exact hcr.prefix dealId

/-- What a client has read, and where its cursor stands. -/
structure Reads (dealId : DealId) (s : State) (ps : List ReceiptPage) : Prop where
  read : pagesRead ps <+: getReceipts s dealId
  cursor : ∀ p, ps.head? = some p → p.hasNext = true → Marks (some p.nextCursor) (pagesRead ps)

theorem Reads.list (h : Reads dealId s ps) (hp : NextPage dealId s ps page) :
    ∃ limit cursor, listReceiptsByDeal dealId limit cursor s = .ok page ∧
      Marks cursor (pagesRead ps) := by
  cases hp with
  | first hl => exact ⟨_, _, hl, .start⟩
  | next hn hl => exact ⟨_, _, hl, h.cursor _ rfl hn⟩

theorem Reads.split (h : Reads dealId s ps) (ho : (getReceipts s dealId).Pairwise Receipt.Before)
    (hp : NextPage dealId s ps page) : ∃ limit post, 0 < limit ∧ PageOf limit post page ∧
      getReceipts s dealId = pagesRead ps ++ post := by
  obtain ⟨post, hpost⟩ := h.read
  obtain ⟨limit, cursor, hl, hm⟩ := h.list hp
  obtain ⟨hpos, hof⟩ := page_of_list hpost.symm (hpost ▸ ho) hm hl
  exact ⟨limit, post, hpos, hof, hpost.symm⟩

theorem Reads.turn (h : Reads dealId s ps) (ho : (getReceipts s dealId).Pairwise Receipt.Before)
    (hp : NextPage dealId s ps page) : Reads dealId s (page :: ps) := by
  obtain ⟨limit, post, _, hof, hpost⟩ := h.split ho hp
  constructor
  · rw [pagesRead_cons, hof.receipts, hpost]
    exact (List.prefix_append_right_inj _).mpr (List.take_prefix _ _)
  · intro p hhead hn
    cases hhead
    obtain ⟨a, hlast, hcur⟩ := hof.next hn
    obtain ⟨l, hl⟩ := List.getLast?_eq_some_iff.mp hlast
    rw [pagesRead_cons, hl, hcur, ← List.append_assoc]
    exact .last

theorem Session.reads (h : Session own dealId t s ps) (hc : TimeOrdered t)
    (hb : bumps t < 2 ^ 64) : Reads dealId s ps := by
  induction h with
  | start => exact ⟨List.prefix_rfl, nofun⟩
  | call h hs ih =>
    have hold := ih (timeOrdered_cons.mp hc).2 ((bumps_le_cons _ _).trans_lt hb)
    exact ⟨hold.read.trans (stored_grows hs dealId), hold.cursor⟩
  | page h hp ih => exact (ih hc hb).turn (stored_ordered h.run hc hb dealId) hp

theorem before_irrefl (r : Receipt) : ¬ r.Before r := fun h => before_asymm h h

theorem nodup_of_ordered {l : List Receipt} (h : l.Pairwise Receipt.Before) : l.Nodup := by
  refine List.Pairwise.imp ?_ h
  rintro r _ hb rfl
  exact before_irrefl r hb

/-- While the global counter has not wrapped, the pages are complete whatever is created between
them. -/
theorem pages_complete (h : Session own dealId t s ps) (hp : NextPage dealId s ps page)
    (hc : TimeOrdered t) (hb : bumps t < 2 ^ 64) : Complete dealId s page ps := by
  have ho := stored_ordered h.run hc hb dealId
  obtain ⟨limit, post, hpos, hof, hpost⟩ := (h.reads hc hb).split ho hp
  have hsplit : getReceipts s dealId = pagesRead (page :: ps) ++ post.drop limit := by
    rw [pagesRead_cons, hof.receipts, List.append_assoc, List.take_append_drop, hpost]
  rw [hsplit] at ho
  obtain ⟨hread, _, hcross⟩ := List.pairwise_append.mp ho
  refine ⟨hread, fun r hr => ?_, fun hn r hr => ?_, ?_⟩
  · rw [hsplit]
    exact List.mem_append_left _ hr
  · have hnil : post.drop limit = [] := by
      rw [List.drop_eq_nil_iff]
      have := mt hof.hasNext.mpr (by simp [hn])
      omega
    rw [hsplit, hnil, List.append_nil] at hr
    exact List.count_eq_one_of_mem (nodup_of_ordered hread) hr
  · rw [hof.hasNext]
    constructor
    · intro hlt
      have hne : post.drop limit ≠ [] := by
        rw [Ne, List.drop_eq_nil_iff]
        omega
      obtain ⟨r, hr⟩ := List.exists_mem_of_ne_nil _ hne
      refine ⟨r, by rw [hsplit]; exact List.mem_append_right _ hr, fun a ha => ?_⟩
      exact hcross a (List.mem_of_getLast? ha) r hr
    · rintro ⟨r, hr, hlast⟩
      by_contra hge
      have hnil : post.drop limit = [] := List.drop_eq_nil_of_le (Nat.not_lt.mp hge)
      rw [hsplit, hnil, List.append_nil] at hr
      -- a receipt that was read does not come after the last one
      obtain ⟨l, a, hl⟩ := (List.eq_nil_or_concat' _).resolve_left (List.ne_nil_of_mem hr)
      have hra := hlast a (by rw [hl, List.getLast?_concat])
      rw [hl] at hr hread
      rcases List.mem_append.mp hr with hr | hr
      · exact before_asymm hra ((List.pairwise_append.mp hread).2.2 r hr a List.mem_cons_self)
      · exact before_irrefl a (List.mem_singleton.mp hr ▸ hra)

theorem next_page_exists (h : Session own dealId t s (p :: ps)) (hn : p.hasNext = true)
    (hc : TimeOrdered t) (hb : bumps t < 2 ^ 64) (hpos : 0 < limit) (hle : limit ≤ 100)
    (hfit : (getReceipts s dealId).length + limit < 2 ^ 32) :
    ∃ page, listReceiptsByDeal dealId limit (some p.nextCursor) s = .ok page ∧
      NextPage dealId s (p :: ps) page := by
  have hr := h.reads hc hb
  obtain ⟨post, hpost⟩ := hr.read
  have ho := stored_ordered h.run hc hb dealId
  have hlen := congrArg List.length hpost
  rw [List.length_append] at hlen
  obtain ⟨page, hl, _⟩ := listReceiptsByDeal_eq hpost.symm (hpost ▸ ho) (hr.cursor p rfl hn) hpos
    hle (by omega)
  exact ⟨page, hl, .next hn hl⟩

theorem Session.of_run (h : (machine own).Run .fresh t s) : Session own dealId t s [] := by
  have h : Session own dealId _ _ _ := Session.start.after h
  rwa [List.append_nil] at h

def firstReceipt : Receipt :=
  ⟨1, 1, 100, 5, txIdBytes 5 1, ⟨4⟩, .replicate 32 1⟩

def secondReceipt : Receipt :=
  ⟨2, 1, 100, 6, txIdBytes 6 3, ⟨4⟩, .replicate 32 2⟩

def thirdReceipt : Receipt :=
  ⟨3, 1, 100, 6, txIdBytes 6 4, ⟨4⟩, .replicate 32 3⟩

def laterCalls : List (Env ⟨0⟩ × Call) :=
  [(.signed ⟨0⟩ 6, .createReceipt 1 100 ⟨4⟩ (.replicate 32 3))]

theorem pages_complete_interleaved :
    Complete 1 ((machine ⟨0⟩).replay (perform receiptCalls).2 laterCalls).2
      ⟨[secondReceipt, thirdReceipt], false, emptyCursor⟩
      [⟨[firstReceipt], true, firstReceipt.cursor⟩] := by
  have hfirst : listReceiptsByDeal 1 1 none (perform receiptCalls).2 =
      .ok ⟨[firstReceipt], true, firstReceipt.cursor⟩ := by decide +kernel
  have hnext : listReceiptsByDeal 1 100 (some firstReceipt.cursor)
      ((machine ⟨0⟩).replay (perform receiptCalls).2 laterCalls).2 =
        .ok ⟨[secondReceipt, thirdReceipt], false, emptyCursor⟩ := by decide +kernel
  have hrun := (machine ⟨0⟩).run_replay .fresh receiptCalls
  have hsession := (Session.of_run hrun).page (.first hfirst)
  have hlater := hsession.after ((machine ⟨0⟩).run_replay (perform receiptCalls).2 laterCalls)
  exact pages_complete hlater (.next rfl hnext) (by decide) (by decide)

/-! The counter wraps after fewer than 2^64 receipts when one of its own deal id raises it twice. -/

theorem createReceipt_returns {env : Env own} (ha : s.admin = some a)
    (hauth : env.authorized a = true) (hp : isPaused s = false) (hpos : 0 < amount)
    (hf : isReferenceUsed s dealId reference = false)
    (hlt : getReceiptCount s dealId + 1 < 2 ^ 64)
    (hroom : (getReceipts s dealId).length + 1 < 2 ^ 32) :
    ∃ p, createReceipt env dealId amount payer reference s = .ok p := by
  have hadmin : requireAdmin env s = .ok () := by
    rw [requireAdmin, getAdmin, ha]
    exact requireAuth_ok.mpr hauth
  have hcount : incrementReceiptCount dealId s = .ok (getReceiptCount s dealId + 1,
      { s with receiptCount := s.receiptCount.set dealId (getReceiptCount s dealId + 1) }) := by
    rw [incrementReceiptCount, bind_of_ok (u64Add_ok.mpr ⟨hlt, rfl⟩)]
    rfl
  rw [createReceipt, bind_of_ok hadmin, requireNotPaused, require_bind_of hp,
    require_bind_of (not_le.mpr hpos), require_bind_of hf, bind_of_ok hcount]
  simp only [pushBack, bind_ok, u32Add_ok, pure_ok]
  exact ⟨_, _, ⟨_, ⟨hroom, rfl⟩, rfl⟩, rfl⟩

theorem createReceipt_ok (h : createReceipt env dealId amount payer reference s = .ok (r, s')) :
    r = ⟨getReceiptCount s dealId + 1, dealId, amount, env.timestamp,
      txIdBytes env.timestamp (getReceiptCount s' u64Max), payer, reference⟩ ∧
      s'.admin = s.admin ∧ s'.paused = s.paused := by
  have hc := createReceipt_creates h
  simp only [createReceipt, incrementReceiptCount, getTxId, pushBack, bind_ok, u64Add_ok,
    pure_ok] at h
  obtain ⟨_, _, _, _, _, _, _, _, ⟨n, s₁⟩, ⟨_, ⟨_, rfl⟩, hs₁⟩, _, ⟨_, _, rfl⟩, h⟩ := h
  cases hs₁
  obtain ⟨rfl, rfl⟩ := Prod.mk.inj h
  exact ⟨congrArg (Receipt.mk _ _ _ _ · _ _) hc.txId, rfl, rfl⟩

/-- A run at time 0 that created a number of receipts. -/
structure Still (t : History ⟨0⟩) (s : State) (n : Nat) : Prop where
  run : (machine ⟨0⟩).Run .fresh t s
  time : ∀ e ∈ t, e.input.1.timestamp = 0
  size : (created t).length = n
  admin : s.admin = some ⟨1⟩
  unpaused : isPaused s = false

theorem Still.timeOrdered (h : Still t s n) : TimeOrdered t := by
  rw [TimeOrdered, List.pairwise_map]
  exact List.pairwise_of_forall_mem_list fun e he e' he' => (h.time e' he').trans_le (Nat.zero_le _)

def creation (dealId : DealId) (reference : BytesN 32) : Env ⟨0⟩ × Call :=
  (.signed ⟨0⟩ 0, .createReceipt dealId 1 ⟨4⟩ reference)

def receiptAt (number : Nat) (dealId : DealId) (counter : Nat) (reference : BytesN 32) : Receipt :=
  ⟨number, dealId, 1, 0, txIdBytes 0 counter, ⟨4⟩, reference⟩

theorem Still.create (h : Still t s n) (hf : isReferenceUsed s dealId reference = false)
    (hlt : getReceiptCount s dealId + 1 < 2 ^ 64)
    (hroom : (getReceipts s dealId).length + 1 < 2 ^ 32) : ∃ s' r,
      r = receiptAt (getReceiptCount s dealId + 1) dealId (getReceiptCount s' u64Max) reference ∧
      Still (⟨s, creation dealId reference, some r, s'⟩ :: t) s' (n + 1) ∧
      (machine ⟨0⟩).Run s [⟨s, creation dealId reference, some r, s'⟩] s' ∧
      Creates (.signed ⟨0⟩ 0) dealId reference s s' r := by
  obtain ⟨⟨r, s'⟩, hok⟩ : ∃ p, createReceipt (.signed ⟨0⟩ 0) dealId 1 ⟨4⟩ reference s = .ok p :=
    createReceipt_returns h.admin rfl h.unpaused Int.one_pos hf hlt hroom
  obtain ⟨rfl, ha, hp⟩ := createReceipt_ok hok
  have hs : (machine ⟨0⟩).step s (creation dealId reference) = some (s', some _) :=
    commit_some.mpr ⟨_, hok, rfl⟩
  refine ⟨s', _, rfl, ⟨h.run.commit hs, ?_, ?_, ha.trans h.admin, ?_⟩, .commit .start hs,
    createReceipt_creates hok⟩
  · exact List.forall_mem_cons.mpr ⟨rfl, h.time⟩
  · rw [created_cons_some rfl, List.length_append, h.size]
    rfl
  · rw [isPaused, hp, ← isPaused, h.unpaused]

/-- The receipts of deal 1 and the global counter. -/
structure Lined (s : State) (counter : Nat) (l : List Receipt) : Prop where
  counter : getReceiptCount s u64Max = counter
  receipts : getReceipts s 1 = l
  count : getReceiptCount s 1 = l.length
  unused : ∀ reference, reference ∉ l.map (·.reference) → isReferenceUsed s 1 reference = false

theorem one_ne_u64Max : (1 : DealId) ≠ u64Max := by decide

theorem Still.add (h : Still t s n) (hl : Lined s c l) (hf : reference ∉ l.map (·.reference))
    (hlt : l.length + 1 < 2 ^ 32) : ∃ e s', (machine ⟨0⟩).Run s [e] s' ∧ Still (e :: t) s' (n + 1) ∧
      Lined s' ((c + 1) % 2 ^ 64)
        (l ++ [receiptAt (l.length + 1) 1 ((c + 1) % 2 ^ 64) reference]) := by
  obtain ⟨s', r, hr, h', hrun, hc⟩ := h.create (hl.unused _ hf) (by rw [hl.count]; omega)
    (by rw [hl.receipts]; exact hlt)
  have hcounter : getReceiptCount s' u64Max = (c + 1) % 2 ^ 64 := by
    rw [hc.counter_mod, hl.counter, if_neg one_ne_u64Max]
  rw [hl.count, hcounter] at hr
  refine ⟨_, s', hrun, h', hcounter, ?_, ?_, fun ref hnot => ?_⟩
  · rw [hc.stored_self, hl.receipts, hr]
  · rw [hc.count_self one_ne_u64Max, hl.count, List.length_append, List.length_singleton]
  · rw [List.map_append, List.mem_append, not_or] at hnot
    have hne : ((1 : DealId), ref) ≠ (1, reference) := fun he =>
      hnot.2 (by rw [(Prod.mk.inj he).2]; exact List.mem_cons_self)
    rw [hc.used_other hne, hl.unused ref hnot.1]

/-- Nothing is known of a deal yet. -/
structure Vacant (s : State) (dealId : DealId) : Prop where
  count : getReceiptCount s dealId = 0
  receipts : getReceipts s dealId = []
  unused : ∀ reference, isReferenceUsed s dealId reference = false

theorem Creates.vacant (hc : Creates env dealId reference s s' r) (h : Vacant s d)
    (hd : d ≠ dealId) (hm : d ≠ u64Max) : Vacant s' d where
  count := by rw [hc.count_other hd hm, h.count]
  receipts := by rw [hc.stored_other hd, h.receipts]
  unused ref := by rw [hc.used_other fun he => hd (Prod.mk.inj he).1, h.unused]

theorem Vacant.lined (h : Vacant s 1) (hc : getReceiptCount s u64Max = c) : Lined s c [] :=
  ⟨hc, h.receipts, h.count, fun ref _ => h.unused ref⟩

/-- The deal of the k-th filling receipt: neither deal 1 nor the reserved one. -/
def fillingDeal (k : Nat) : DealId := UInt64.ofNat (k + 2)

theorem fillingDeal_toNat (hk : k + 2 < 2 ^ 64) : (fillingDeal k).toNat = k + 2 :=
  UInt64.toNat_ofNat_of_lt' hk

theorem fillingDeal_ne_u64Max (hk : k + 3 < 2 ^ 64) : fillingDeal k ≠ u64Max := by
  intro he
  have hn := congrArg UInt64.toNat he
  rw [fillingDeal_toNat (by omega)] at hn
  have hm : u64Max.toNat = 2 ^ 64 - 1 := by decide
  omega

theorem fillingDeal_ne (hk : k + 2 < 2 ^ 64) (hj : j < k) : fillingDeal k ≠ fillingDeal j := by
  intro he
  have hn := congrArg UInt64.toNat he
  rw [fillingDeal_toNat hk, fillingDeal_toNat (by omega)] at hn
  omega

theorem one_ne_fillingDeal (hk : k + 2 < 2 ^ 64) : 1 ≠ fillingDeal k := by
  intro he
  have hn := congrArg UInt64.toNat he
  rw [fillingDeal_toNat hk] at hn
  have hone : (1 : UInt64).toNat = 1 := by decide
  omega

def initialized : State := { State.fresh with admin := some ⟨1⟩, contractVersion := some 1 }

theorem still_initialized : ∃ t, Still t initialized 0 := by
  have hrun : (machine ⟨0⟩).Run .fresh
      [⟨.fresh, (.signed ⟨0⟩ 0, .init ⟨1⟩), none, initialized⟩] initialized := .commit .start rfl
  exact ⟨_, hrun, List.forall_mem_singleton.mpr rfl, rfl, rfl, rfl⟩

theorem initialized_vacant (d : DealId) : Vacant initialized d := ⟨rfl, rfl, fun _ => rfl⟩

theorem filled (hk : k + 3 < 2 ^ 64) : ∃ t s, Still t s (k + 1) ∧
    getReceiptCount s u64Max = k + 2 ∧ Vacant s 1 ∧
    ∀ j, k ≤ j → j + 3 < 2 ^ 64 → Vacant s (fillingDeal j) := by
  induction k with
  | zero =>
    obtain ⟨t, h⟩ := still_initialized
    obtain ⟨s, r, _, h', _, hc⟩ :=
      @Still.create _ _ _ u64Max (.replicate 32 0) h rfl (by decide) (by decide)
    have hvacant {d : DealId} (hd : d ≠ u64Max) : Vacant s d :=
      hc.vacant (initialized_vacant d) hd hd
    refine ⟨_, s, h', ?_, hvacant one_ne_u64Max, fun j _ hj => hvacant (fillingDeal_ne_u64Max hj)⟩
    rw [hc.counter_mod]
    rfl
  | succ k ih =>
    obtain ⟨t, s, h, hcount, hone, hrest⟩ := ih (by omega)
    have hv := hrest k le_rfl (by omega)
    have hm : fillingDeal k ≠ u64Max := fillingDeal_ne_u64Max (by omega)
    obtain ⟨s', r, _, h', _, hc⟩ := @Still.create _ _ _ (fillingDeal k) (.replicate 32 0) h
      (hv.unused _) (by rw [hv.count]; decide) (by rw [hv.receipts]; decide)
    refine ⟨_, s', h', ?_, hc.vacant hone (one_ne_fillingDeal (by omega)) one_ne_u64Max,
      fun j hj hlt => ?_⟩
    · rw [hc.counter (by rw [hcount, if_neg hm]; omega), hcount, if_neg hm]
    · exact hc.vacant (hrest j (by omega) hlt) (fillingDeal_ne (by omega) (by omega))
        (fillingDeal_ne_u64Max hlt)

/-- The fourth receipt of deal 1, whose counter has wrapped, is missed by a client that has read the
first of two when it is created. No deal has more than four receipts. -/
theorem wrapped_skipped :
    ¬ ∀ (t : History ⟨0⟩) s ps page, Session ⟨0⟩ 1 t s ps → NextPage 1 s ps page →
      TimeOrdered t → (created t).length < 2 ^ 64 → Complete 1 s page ps := by
  intro hall
  obtain ⟨t, s, h, hcount, hone, _⟩ := @filled (2 ^ 64 - 6) (by decide)
  have hl : Lined s (2 ^ 64 - 4) [] := hone.lined hcount
  obtain ⟨e₁, s₁, _, h₁, hl₁⟩ := @Still.add _ _ _ _ _ (.replicate 32 1) h hl (by simp) (by decide)
  obtain ⟨e₂, s₂, _, h₂, hl₂⟩ :=
    @Still.add _ _ _ _ _ (.replicate 32 2) h₁ hl₁ (by decide) (by decide)
  obtain ⟨e₃, s₃, hrun₃, h₃, hl₃⟩ :=
    @Still.add _ _ _ _ _ (.replicate 32 3) h₂ hl₂ (by decide) (by decide)
  obtain ⟨e₄, s₄, hrun₄, h₄, hl₄⟩ :=
    @Still.add _ _ _ _ _ (.replicate 32 4) h₃ hl₃ (by decide) (by decide)
  have hfirst : listReceiptsByDeal 1 1 none s₂ = .ok
      ⟨[receiptAt 1 1 (2 ^ 64 - 3) (.replicate 32 1)], true, ⟨0, txIdBytes 0 (2 ^ 64 - 3)⟩⟩ := by
    rw [listReceiptsByDeal, hl₂.receipts]
    decide +kernel
  have hnext : listReceiptsByDeal 1 100 (some ⟨0, txIdBytes 0 (2 ^ 64 - 3)⟩) s₄ =
      .ok ⟨[receiptAt 2 1 (2 ^ 64 - 2) (.replicate 32 2),
        receiptAt 3 1 (2 ^ 64 - 1) (.replicate 32 3)], false, emptyCursor⟩ := by
    rw [listReceiptsByDeal, hl₄.receipts]
    decide +kernel
  have hsession := ((Session.of_run h₂.run).page (.first hfirst)).after (hrun₃.append hrun₄)
  have hcomplete := hall _ _ _ _ hsession (.next rfl hnext) h₄.timeOrdered
    (h₄.size.trans_lt (by decide))
  have hmem : receiptAt 4 1 0 (.replicate 32 4) ∈ getReceipts s₄ 1 := by
    rw [hl₄.receipts]
    decide +kernel
  have hcount := hcomplete.all rfl _ hmem
  revert hcount
  decide +kernel

end Shelterflex.RentPayments
