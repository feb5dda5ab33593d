import Shelterflex.ModuleTreeCheck.Model
import Mathlib.Data.List.Chain

/-! What `strip_comments` and `tokenize` leave of the lexemes of a text. -/

namespace Shelterflex.ModuleTreeCheck
open Lib.RustLexer
set_option autoImplicit true

theorem strip_cons (h : c = '/' → cs.head? ≠ some '/' ∧ cs.head? ≠ some '*') :
    stripFrom false false (c :: cs) = c :: stripFrom false false cs := by
  rw [stripFrom.eq_def]
  simp only [Bool.false_eq_true, ↓reduceIte]
  split
  · exact absurd rfl (h rfl).1
  · exact absurd rfl (h rfl).2
  · rfl

theorem strip_in_block (h : ¬ (c = '*' ∧ cs.head? = some '/')) :
    stripFrom false true (c :: cs) = stripFrom false true cs := by
  rw [stripFrom.eq_def]
  simp only [Bool.false_eq_true, ↓reduceIte]
  split
  · exact absurd ⟨rfl, rfl⟩ h
  · rfl

theorem strip_line (h : '\n' ∉ body) (rest : List Char) :
    stripFrom true false (body ++ rest) = stripFrom true false rest := by
  induction body with
  | nil => rfl
  | cons c cs ih =>
    have hc : c ≠ '\n' := fun hc => h (hc ▸ List.mem_cons_self)
    have hcs : '\n' ∉ cs := fun hcs => h (List.mem_cons_of_mem c hcs)
    rw [List.cons_append, stripFrom.eq_def]
    simp only [↓reduceIte, hc]
    exact ih hcs

theorem strip_line_end (h : ∀ c ∈ rest.head?, c = '\n') :
    stripFrom true false rest = stripFrom false false rest := by
  cases rest with
  | nil => rfl
  | cons c cs =>
    rw [h c rfl, strip_cons (fun hslash => absurd hslash (by decide))]
    rfl

/-- A block comment without another inside ends where the source sees it end. -/
theorem strip_block (h : blockRest 0 cs = some (body, rest)) (hflat : ¬ ['/', '*'] <:+: body) :
    stripFrom false true cs = stripFrom false false rest := by
  generalize hd : 0 = depth at h
  fun_induction blockRest depth cs generalizing body with
  | case1 => cases h
  | case2 => cases h
  | case3 cs c d hend =>
    cases h
    rw [hend.1, hend.2]
    rfl
  | case4 => cases hd
  | case5 _ c d cs _ hopen _ =>
    obtain ⟨more, _, rfl⟩ := behind_some.mp h
    rw [hopen.1, hopen.2] at hflat
    exact absurd ⟨[], more, rfl⟩ hflat
  | case6 _ c d cs hend _ ih =>
    obtain ⟨more, hmore, rfl⟩ := behind_some.mp h
    have hflat' : ¬ ['/', '*'] <:+: more := fun hin => hflat (List.infix_cons hin)
    rw [strip_in_block (fun hc => hend (hc.imp_right Option.some.inj)), ih hflat' hd hmore]

/-- A text in which no comment starts. -/
def Uncommented (text : List Char) : Prop := ¬ ['/', '/'] <:+: text ∧ ¬ ['/', '*'] <:+: text

theorem strip_plain (htext : Uncommented text)
    (hlast : text.getLast? = some '/' → rest.head? ≠ some '/' ∧ rest.head? ≠ some '*') :
    stripFrom false false (text ++ rest) = text ++ stripFrom false false rest := by
  induction text with
  | nil => rfl
  | cons c cs ih =>
    have hcs : Uncommented cs :=
      htext.imp (fun h hin => h (List.infix_cons hin)) (fun h hin => h (List.infix_cons hin))
    have hhead : c = '/' → (cs ++ rest).head? ≠ some '/' ∧ (cs ++ rest).head? ≠ some '*' := by
      rintro rfl
      cases cs with
      | nil => exact hlast rfl
      | cons d ds =>
        constructor
        · exact fun hd => htext.1 ⟨[], ds, by cases hd; rfl⟩
        · exact fun hd => htext.2 ⟨[], ds, by cases hd; rfl⟩
    rw [List.cons_append, strip_cons hhead, ih hcs]
    · rfl
    · intro hend
      refine hlast ?_
      rw [List.getLast?_cons, hend]
      rfl

theorem uncommented_of_notMem (h : '/' ∉ text) : Uncommented text :=
  ⟨fun hin => h (hin.subset List.mem_cons_self), fun hin => h (hin.subset List.mem_cons_self)⟩

theorem strip_notMem (h : '/' ∉ text) (rest : List Char) :
    stripFrom false false (text ++ rest) = text ++ stripFrom false false rest :=
  strip_plain (uncommented_of_notMem h) (fun hend => absurd (List.mem_of_getLast? hend) h)

/-- Nothing in the lexeme misleads the comment stripper. -/
def Strips : Lexeme → Prop
  | .blockComment text => ¬ ['/', '*'] <:+: text.drop 2
  | .literal text => Uncommented text
  | _ => True

instance : DecidablePred Strips
  | .blockComment text => inferInstanceAs (Decidable (¬ ['/', '*'] <:+: text.drop 2))
  | .literal text =>
    inferInstanceAs (Decidable (¬ ['/', '/'] <:+: text ∧ ¬ ['/', '*'] <:+: text))
  | .space _ | .lineComment _ | .word _ | .rawIdent _ | .lifetime _ | .punct _ => .isTrue trivial

theorem strip_comment (h : Taken src x rest) (hx : Strips x) (hc : x.isComment = true) :
    stripFrom false false src = stripFrom false false rest := by
  have hfits := h.fits
  rw [h.text]
  cases x with
  | lineComment text =>
    obtain ⟨body, rfl, hbody, hrest⟩ := hfits
    change stripFrom true false (body ++ rest) = _
    rw [strip_line hbody, strip_line_end hrest]
  | blockComment text =>
    obtain ⟨body, rfl, hbody⟩ := hfits
    exact strip_block hbody hx
  | _ => cases hc

theorem strip_kept (h : Taken src x rest) (hx : Strips x) (hc : x.isComment = false) :
    stripFrom false false src = x.text ++ stripFrom false false rest := by
  have hfits := h.fits
  rw [h.text]
  cases x with
  | lineComment text => cases hc
  | blockComment text => cases hc
  | space c =>
    refine strip_notMem (fun hmem => ?_) rest
    have hspace : isSpace c := hfits
    rw [← List.mem_singleton.mp hmem] at hspace
    exact absurd hspace (by decide)
  | punct c =>
    refine strip_plain ⟨?_, ?_⟩ (fun hend => hfits (Option.some.inj hend)) <;>
    · intro hin
      exact absurd hin.length_le (Nat.not_succ_le_self 1)
  | word name => exact strip_notMem (slash_notMem_name hfits) rest
  | rawIdent name =>
    have hraw : '/' ∉ 'r' :: '#' :: name := by
      simpa using slash_notMem_name hfits
    exact strip_notMem hraw rest
  | lifetime text => exact strip_notMem hfits rest
  | literal text => exact strip_plain hx (fun hend => absurd hend hfits)

/-- The text outside of comments. -/
def uncomment (ls : List Lexeme) : List Char :=
  (ls.filter (! ·.isComment)).flatMap Lexeme.text

theorem uncomment_comment (hc : x.isComment = true) (xs : List Lexeme) :
    uncomment (x :: xs) = uncomment xs := by
  rw [uncomment, List.filter_cons_of_neg (by simp [hc])]
  rfl

theorem uncomment_kept (hc : x.isComment = false) (xs : List Lexeme) :
    uncomment (x :: xs) = x.text ++ uncomment xs := by
  rw [uncomment, List.filter_cons_of_pos (by simp [hc])]
  rfl

theorem uncomment_sublist (ls : List Lexeme) : (uncomment ls).Sublist (ls.flatMap Lexeme.text) := by
  induction ls with
  | nil => exact .slnil
  | cons x xs ih =>
    rw [List.flatMap_cons]
    cases hc : x.isComment with
    | true =>
      rw [uncomment_comment hc]
      exact ih.trans (List.sublist_append_right _ _)
    | false =>
      rw [uncomment_kept hc]
      exact (List.append_sublist_append_left _).mpr ih

theorem strip_lexes (h : Lexes src ls) (hls : ∀ x ∈ ls, Strips x) :
    stripComments src = uncomment ls := by
  rw [stripComments]
  induction h with
  | nil => rfl
  | @cons src x rest xs htaken _ ih =>
    obtain ⟨hx, hxs⟩ := List.forall_mem_cons.mp hls
    cases hc : x.isComment with
    | true => rw [strip_comment htaken hx hc, ih hxs, uncomment_comment hc]
    | false => rw [strip_kept htaken hx hc, ih hxs, uncomment_kept hc]

/-! Tokens. -/

def startsWord (cs : List Char) : Bool := cs.head?.any isWordChar

def endsWord (cs : List Char) : Bool := cs.getLast?.any isWordChar

theorem startsWord_append (h : front ≠ []) (more : List Char) :
    startsWord (front ++ more) = startsWord front := by
  cases front with
  | nil => cases h rfl
  | cons c cs => rfl

theorem endsWord_append (h : endsWord more) (front : List Char) : endsWord (front ++ more) := by
  cases hlast : more.getLast? with
  | none =>
    rw [endsWord, hlast] at h
    cases h
  | some c =>
    rw [endsWord, hlast] at h
    have hend : (front ++ more).getLast? = some c :=
      List.mem_getLast?_append_of_mem_getLast? hlast
    rw [endsWord, hend]
    exact h

theorem tokenizeFrom_cut (hcur : cur ≠ [] → endsWord cur = true)
    (hcut : endsWord cur → startsWord b = false) :
    tokenizeFrom cur b = flush cur ++ tokenize b := by
  by_cases hnil : cur = []
  · rw [hnil]
    rfl
  · have hstart := hcut (hcur hnil)
    cases b with
    | nil => exact (List.append_nil _).symm
    | cons c cs =>
      have hc : isWordChar c = false := hstart
      simp only [tokenize, tokenizeFrom, hc, Bool.false_eq_true, ↓reduceIte]
      split <;> rfl

theorem tokenizeFrom_append (hcur : cur ≠ [] → endsWord cur = true)
    (hcut : endsWord (cur ++ a) → startsWord b = false) :
    tokenizeFrom cur (a ++ b) = tokenizeFrom cur a ++ tokenize b := by
  induction a generalizing cur with
  | nil =>
    rw [List.append_nil] at hcut
    exact tokenizeFrom_cut hcur hcut
  | cons c cs ih =>
    rw [List.cons_append, tokenizeFrom, tokenizeFrom]
    by_cases hc : isWordChar c
    · rw [if_pos hc, if_pos hc]
      refine ih (fun _ => ?_) (fun hend => hcut ?_)
      · rw [endsWord, List.getLast?_concat]
        exact hc
      · rw [List.append_cons]
        exact hend
    · have hcs : endsWord ([] ++ cs) → startsWord b = false := by
        intro hend
        refine hcut ?_
        rw [List.append_cons]
        exact endsWord_append hend _
      rw [if_neg hc, if_neg hc, ih (fun h => absurd rfl h) hcs]
      split
      · rw [List.append_assoc, List.cons_append]
      · rw [List.append_assoc]

theorem tokenize_append (hcut : endsWord a → startsWord b = false) :
    tokenize (a ++ b) = tokenize a ++ tokenize b :=
  tokenizeFrom_append (fun h => absurd rfl h) hcut

theorem tokenizeFrom_word (h : ∀ c ∈ w, isWordChar c) : tokenizeFrom cur w = flush (cur ++ w) := by
  induction w generalizing cur with
  | nil => rw [List.append_nil, tokenizeFrom]
  | cons c cs ih =>
    obtain ⟨hc, hcs⟩ := List.forall_mem_cons.mp h
    rw [tokenizeFrom, if_pos hc, ih hcs, ← List.append_cons]

theorem tokenize_space (h : isSpace c) : tokenize [c] = [] := by
  have hall : ∀ n ∈ [9, 10, 11, 12, 13, 32, 0x85, 0x200E, 0x200F, 0x2028, 0x2029],
    tokenize [Char.ofNat n] = [] := by decide
  rw [← Char.ofNat_toNat c]
  exact hall _ (of_decide_eq_true h)

/-- A character that is no part of a word is a token at most as often as it is in the text. -/
theorem count_tokenizeFrom (hb : isWordChar b = false) (hcur : cur ≠ [b]) (cs : List Char) :
    (tokenizeFrom cur cs).count [b] ≤ cs.count b := by
  have hflush {w : List Char} (hw : w ≠ [b]) : (flush w).count [b] = 0 := by
    rw [flush]
    split
    · rfl
    · exact List.count_eq_zero_of_not_mem (fun hmem => hw (List.mem_singleton.mp hmem).symm)
  induction cs generalizing cur with
  | nil => rw [tokenizeFrom, hflush hcur]; exact Nat.zero_le _
  | cons c cs ih =>
    have hrest := ih (List.cons_ne_nil b [] ·.symm)
    rw [tokenizeFrom]
    split
    · rename_i hc
      have hne : cur ++ [c] ≠ [b] := by
        intro he
        have hlast := congrArg List.getLast? he
        rw [List.getLast?_concat, List.getLast?_singleton] at hlast
        rw [Option.some.inj hlast, hb] at hc
        cases hc
      exact (ih hne).trans List.count_le_count_cons
    · split
      · rw [List.count_append, hflush hcur, List.count_cons, List.count_cons]
        simp only [beq_iff_eq, List.cons.injEq, and_true]
        omega
      · rw [List.count_append, hflush hcur, Nat.zero_add]
        exact hrest.trans List.count_le_count_cons

/-- What is neither space nor comment. -/
def codeOf (ls : List Lexeme) : List Lexeme := ls.filter (! ·.isTrivia)

/-- The tokens of lexemes, each on its own. -/
def tokens (ls : List Lexeme) : List (List Char) := ls.flatMap (tokenize ·.text)

theorem tokens_comment (hc : x.isComment = true) (xs : List Lexeme) :
    tokens (codeOf (x :: xs)) = tokens (codeOf xs) := by
  cases x <;> first | rfl | cases hc

theorem tokens_kept (hx : x.Fits rest) (hc : x.isComment = false) (xs : List Lexeme) :
    tokens (codeOf (x :: xs)) = tokenize x.text ++ tokens (codeOf xs) := by
  cases x with
  | space c =>
    rw [Lexeme.text, tokenize_space hx]
    rfl
  | lineComment _ | blockComment _ => cases hc
  | _ => rfl

/-- One of the two lexemes keeps a word from running on into the other. -/
def Apart (x y : Lexeme) : Prop := endsWord x.text → startsWord y.text = false

instance : DecidableRel Apart := fun x y =>
  inferInstanceAs (Decidable (endsWord x.text → startsWord y.text = false))

theorem tokenize_uncomment (h : Lexes src ls)
    (hapart : (ls.filter (! ·.isComment)).IsChain Apart) :
    tokenize (uncomment ls) = tokens (codeOf ls) := by
  induction h with
  | nil => rfl
  | @cons src x rest xs htaken hrest ih =>
    cases hc : x.isComment with
    | true =>
      rw [List.filter_cons_of_neg (by simp [hc])] at hapart
      rw [uncomment_comment hc, tokens_comment hc, ih hapart]
    | false =>
      rw [List.filter_cons_of_pos (by simp [hc])] at hapart
      rw [uncomment_kept hc, tokens_kept htaken.fits hc, ← ih hapart.tail]
      refine tokenize_append (fun hend => ?_)
      rw [uncomment]
      cases hf : xs.filter (! ·.isComment) with
      | nil => rfl
      | cons y ys =>
        rw [hf] at hapart
        have hy : y ∈ xs := List.mem_of_mem_filter (hf ▸ List.mem_cons_self)
        rw [List.flatMap_cons, startsWord_append (hrest.nonempty y hy)]
        exact hapart.rel_head? rfl hend

end Shelterflex.ModuleTreeCheck
