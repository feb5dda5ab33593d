import Shelterflex.ModuleTreeCheck.Tokens

/-! The loop over the tokens, without the bounds of its depth. -/

namespace Shelterflex.ModuleTreeCheck
open Lib.RustLexer
set_option autoImplicit true

def tokenTurn (token : List Char) : Int :=
  if token = ['{'] then 1 else if token = ['}'] then -1 else 0

/-- How deep the scanner is behind tokens. -/
def depthOf (ts : List (List Char)) : Int := (ts.map tokenTurn).sum

/-- The name that the scanner takes behind a `mod` outside of braces. -/
def hit : List (List Char) → List (List Char)
  | name :: term :: _ => if isIdent name ∧ term = [';'] then [name] else []
  | _ => []

def found (depth : Int) : List (List Char) → List (List Char)
  | [] => []
  | token :: ts =>
    (if token = ['m', 'o', 'd'] ∧ depth = 0 then hit ts else []) ++
      found (depth + tokenTurn token) ts

theorem depthOf_cons (token : List Char) (ts : List (List Char)) :
    depthOf (token :: ts) = tokenTurn token + depthOf ts := rfl

theorem depthOf_append (as bs : List (List Char)) :
    depthOf (as ++ bs) = depthOf as + depthOf bs := by
  rw [depthOf, List.map_append, List.sum_append]
  rfl

theorem scan_cons (h : -2 ^ 31 ≤ depth + tokenTurn token ∧ depth + tokenTurn token < 2 ^ 31) :
    scan names depth (token :: ts) =
      scan (names ++ if token = ['m', 'o', 'd'] ∧ depth = 0 then hit ts else [])
        (depth + tokenTurn token) ts := by
  rw [scan.eq_def]
  by_cases hopen : token = ['{']
  · subst hopen
    have hadd : i32Add depth 1 = .ok (depth + 1) := if_pos h
    have hturn : tokenTurn ['{'] = 1 := rfl
    have hmod : ¬ (['{'] = ['m', 'o', 'd'] ∧ depth = 0) := fun hm => absurd hm.1 (by decide)
    simp only [↓reduceIte, hadd, hturn, if_neg hmod, List.append_nil]
    rfl
  · by_cases hclose : token = ['}']
    · subst hclose
      have hturn : tokenTurn ['}'] = -1 := rfl
      have hsub : i32SaturatingSub depth 1 = depth + -1 := by
        rw [hturn] at h
        rw [i32SaturatingSub]
        omega
      have hmod : ¬ (['}'] = ['m', 'o', 'd'] ∧ depth = 0) := fun hm => absurd hm.1 (by decide)
      simp only [hopen, ↓reduceIte, hsub, hturn, if_neg hmod, List.append_nil]
    · have hturn : tokenTurn token = 0 := by rw [tokenTurn, if_neg hopen, if_neg hclose]
      simp only [hopen, hclose, ↓reduceIte, hturn, Int.add_zero]
      by_cases hmod : token = ['m', 'o', 'd'] ∧ depth = 0
      · rw [if_pos hmod, if_pos hmod]
        rcases ts with _ | ⟨name, _ | ⟨term, ts⟩⟩
        · exact congrArg (scan · depth []) (List.append_nil names).symm
        · exact congrArg (scan · depth [name]) (List.append_nil names).symm
        · simp only [hit]
          split
          · rfl
          · rw [List.append_nil]
      · rw [if_neg hmod, if_neg hmod, List.append_nil]

theorem scan_found (h : ∀ as bs, ts = as ++ bs →
    -2 ^ 31 ≤ depth + depthOf as ∧ depth + depthOf as < 2 ^ 31) :
    scan names depth ts = .ok (names ++ found depth ts) := by
  induction ts generalizing names depth with
  | nil => rw [scan, found, List.append_nil]
  | cons token ts ih =>
    have hrest : ∀ as bs, ts = as ++ bs → -2 ^ 31 ≤ depth + tokenTurn token + depthOf as ∧
        depth + tokenTurn token + depthOf as < 2 ^ 31 := by
      intro as bs hts
      rw [Int.add_assoc, ← depthOf_cons]
      exact h (token :: as) bs (congrArg (token :: ·) hts)
    have hnext := hrest [] ts rfl
    rw [show depthOf [] = 0 from rfl, Int.add_zero] at hnext
    rw [scan_cons hnext, ih hrest, found, List.append_assoc]

/-- Tokens without a `mod` outside of braces only move the depth. -/
theorem found_append (h : ∀ k < ts.length, ts[k]? = some ['m', 'o', 'd'] →
    depth + depthOf (ts.take k) ≠ 0) (more : List (List Char)) :
    found depth (ts ++ more) = found (depth + depthOf ts) more := by
  induction ts generalizing depth with
  | nil =>
    rw [List.nil_append, show depthOf [] = 0 from rfl, Int.add_zero]
  | cons token ts ih =>
    have hmod : ¬ (token = ['m', 'o', 'd'] ∧ depth = 0) := by
      rintro ⟨htoken, hdepth⟩
      exact h 0 (Nat.succ_pos _) (congrArg some htoken) ((Int.add_zero depth).trans hdepth)
    have hts : ∀ k < ts.length, ts[k]? = some ['m', 'o', 'd'] →
        depth + tokenTurn token + depthOf (ts.take k) ≠ 0 := by
      intro k hk hget
      rw [Int.add_assoc, ← depthOf_cons]
      exact h (k + 1) (Nat.succ_lt_succ hk) hget
    rw [List.cons_append, found, if_neg hmod, ih hts, depthOf_cons, Int.add_assoc]
    rfl

theorem depthOf_le (as : List (List Char)) :
    -(as.count ['}'] : Int) ≤ depthOf as ∧ depthOf as ≤ as.count ['{'] := by
  induction as with
  | nil => exact ⟨le_rfl, le_rfl⟩
  | cons token as ih =>
    rw [depthOf_cons, tokenTurn, List.count_cons, List.count_cons]
    simp only [beq_iff_eq]
    by_cases hopen : token = ['{']
    · subst hopen
      simp only [↓reduceIte]
      omega
    · by_cases hclose : token = ['}']
      · subst hclose
        simp only [hopen, ↓reduceIte]
        omega
      · simp only [hopen, hclose, ↓reduceIte]
        omega

/-- The depth of the scanner keeps to its type on a text with few braces. -/
theorem scan_ok (hsmall : src.count '{' < 2 ^ 31 ∧ src.count '}' < 2 ^ 31)
    (hsub : text.Sublist src) : scan [] 0 (tokenize text) = .ok (found 0 (tokenize text)) := by
  refine scan_found (fun as bs he => ?_)
  have hcount {b : Char} (hb : isWordChar b = false) : as.count [b] ≤ src.count b := calc
    as.count [b] ≤ (tokenize text).count [b] := by
      rw [he, List.count_append]
      exact Nat.le_add_right _ _
    _ ≤ text.count b := count_tokenizeFrom hb (List.cons_ne_nil b [] ·.symm) text
    _ ≤ src.count b := hsub.count_le b
  have hopen := hcount (b := '{') (by decide)
  have hclose := hcount (b := '}') (by decide)
  have hdepth := depthOf_le as
  omega

theorem hit_declaration (h : isIdent name) (more : List (List Char)) :
    hit (tokenize name ++ [';'] :: more) = [name] := by
  obtain ⟨hne, hall, hdigit⟩ := of_decide_eq_true h
  have htokens : tokenize name = [name] := by
    rw [tokenize, tokenizeFrom_word (List.all_eq_true.mp hall), List.nil_append, flush, if_neg hne]
  rw [htokens]
  exact if_pos ⟨h, rfl⟩

theorem hit_inline (h : ';' ∉ text) (more : List (List Char)) :
    hit (tokenize text ++ ['{'] :: more) = [] := by
  have hnone : [';'] ∉ tokenize text := by
    rw [← List.count_eq_zero] at h ⊢
    have hle := count_tokenizeFrom (b := ';') (by decide) (List.cons_ne_nil ';' [] ·.symm) text
    exact Nat.le_zero.mp (h ▸ hle)
  rcases ht : tokenize text with _ | ⟨name, _ | ⟨term, ts⟩⟩
  · cases more with
    | nil => rfl
    | cons term more =>
      have hname : isIdent ['{'] = false := by decide
      simp only [List.nil_append, hit, hname, Bool.false_eq_true, false_and, ↓reduceIte]
  · have hterm : ['{'] ≠ [';'] := by decide
    simp only [List.cons_append, List.nil_append, hit, hterm, and_false, ↓reduceIte]
  · have hterm : term ≠ [';'] := by
      rintro rfl
      exact hnone (ht ▸ List.mem_cons_of_mem _ List.mem_cons_self)
    simp only [List.cons_append, hit, hterm, and_false, ↓reduceIte]

end Shelterflex.ModuleTreeCheck
