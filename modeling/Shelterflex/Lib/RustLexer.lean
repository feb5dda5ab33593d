import Mathlib.Data.List.Basic
import Mathlib.Data.List.Infix
import Mathlib.Data.List.TakeWhile

/-! The lexical structure of Rust: a text is split into white space, comments, words, literals and
punctuation. -/

namespace Lib.RustLexer
set_option autoImplicit true

inductive Lexeme where
  | space (c : Char)
  | lineComment (text : List Char)
  | blockComment (text : List Char)
  /-- An identifier, a keyword, or a number up to its first point or sign. -/
  | word (text : List Char)
  | rawIdent (name : List Char)
  | lifetime (text : List Char)
  /-- A string, byte string, C string, character or byte, raw or not, with its prefix and suffix. -/
  | literal (text : List Char)
  | punct (c : Char)
deriving DecidableEq, Repr

def Lexeme.text : Lexeme → List Char
  | .space c | .punct c => [c]
  | .lineComment text | .blockComment text | .word text | .lifetime text | .literal text => text
  | .rawIdent name => 'r' :: '#' :: name

def Lexeme.isComment : Lexeme → Bool
  | .lineComment _ | .blockComment _ => true
  | _ => false

/-- Space or a comment. -/
def Lexeme.isTrivia : Lexeme → Bool
  | .space _ | .lineComment _ | .blockComment _ => true
  | _ => false

/-- The characters of identifiers beyond ASCII. -/
structure Xid where
  start : Char → Bool
  rest : Char → Bool

/-- An ASCII letter, a digit or an underscore. -/
def isWordChar (c : Char) : Bool := c.isAlphanum || c == '_'

def Xid.identStart (xid : Xid) (c : Char) : Bool :=
  c.isAlpha || c == '_' || (decide (127 < c.toNat) && xid.start c)

def Xid.identRest (xid : Xid) (c : Char) : Bool :=
  isWordChar c || (decide (127 < c.toNat) && xid.rest c)

/-- A character of a word or of an identifier beyond ASCII. -/
def isNameChar (c : Char) : Bool := isWordChar c || decide (127 < c.toNat)

/-- The `Pattern_White_Space` of Unicode. -/
def isSpace (c : Char) : Bool :=
  c.toNat ∈ [9, 10, 11, 12, 13, 32, 0x85, 0x200E, 0x200F, 0x2028, 0x2029]

/-- Characters in front of what was taken. -/
def behind (front : List Char) : Option (List Char × List Char) → Option (List Char × List Char) :=
  Option.map fun (taken, rest) => (front ++ taken, rest)

/-- The rest of a block comment inside of others, up to its end and theirs. -/
def blockRest : Nat → List Char → Option (List Char × List Char)
  | _, [] => none
  | _, [_] => none
  | depth, c :: d :: cs =>
    if c = '*' ∧ d = '/' then
      match depth with
      | 0 => some ([c, d], cs)
      | depth + 1 => behind [c, d] (blockRest depth cs)
    else if c = '/' ∧ d = '*' then behind [c, d] (blockRest (depth + 1) cs)
    else behind [c] (blockRest depth (d :: cs))

/-- The rest of a literal up to a quote that is not escaped. -/
def quotedRest (quote : Char) : List Char → Option (List Char × List Char)
  | [] => none
  | [c] => if c = quote then some ([c], []) else none
  | c :: d :: cs =>
    if c = quote then some ([c], d :: cs)
    else if c = '\\' then behind [c, d] (quotedRest quote cs)
    else behind [c] (quotedRest quote (d :: cs))

/-- The rest of a raw string up to a quote that as many hashes follow. -/
def rawRest (hashes : List Char) : List Char → Option (List Char × List Char)
  | [] => none
  | c :: cs =>
    if c = '"' ∧ hashes <+: cs then some (c :: hashes, cs.drop hashes.length)
    else behind [c] (rawRest hashes cs)

section
variable (xid : Xid)

/-- The suffix of a literal. -/
def suffix : List Char → List Char × List Char
  | [] => ([], [])
  | c :: cs =>
    if xid.identStart c then (c :: cs.takeWhile xid.identRest, cs.dropWhile xid.identRest)
    else ([], c :: cs)

def closeLiteral : Option (List Char × List Char) → Option (Lexeme × List Char) :=
  Option.map fun (taken, rest) =>
    (.literal (taken ++ (suffix xid rest).1), (suffix xid rest).2)

/-- A character literal behind its quote, with a prefix. -/
def lexChar (front : List Char) : List Char → Option (Lexeme × List Char)
  | c :: cs =>
    if c = '\\' then closeLiteral xid (behind front (quotedRest '\'' (c :: cs)))
    else if cs.head? = some '\'' then closeLiteral xid (some (front ++ [c, '\''], cs.tail))
    else none
  | [] => none

/-- A character literal or a lifetime, behind its quote. -/
def lexQuote : List Char → Option (Lexeme × List Char)
  | [] => none
  | c :: cs =>
    if c = '\\' ∨ cs.head? = some '\'' then lexChar xid ['\''] (c :: cs)
    else if xid.identStart c ∨ c.isDigit then
      let rest := cs.dropWhile xid.identRest
      let name := c :: cs.takeWhile xid.identRest
      match rest with
      | '\'' :: _ => none
      | '#' :: d :: ds =>
        if name = ['r'] ∧ xid.identStart d then
          some (.lifetime ('\'' :: name ++ '#' :: d :: ds.takeWhile xid.identRest),
            ds.dropWhile xid.identRest)
        else some (.lifetime ('\'' :: name), rest)
      | _ => some (.lifetime ('\'' :: name), rest)
    else none

def isRawPrefix (w : List Char) : Bool := w ∈ [['r'], ['b', 'r'], ['c', 'r']]

/-- A word, or what it is the prefix of. -/
def lexWord (w rest : List Char) : Option (Lexeme × List Char) :=
  let hashes := rest.takeWhile (· = '#')
  match rest.dropWhile (· = '#') with
  | [] => some (.word w, rest)
  | c :: cs =>
    if c = '"' ∧ isRawPrefix w then
      closeLiteral xid (behind (w ++ hashes ++ [c]) (rawRest hashes cs))
    else if c = '"' ∧ hashes = [] ∧ w ∈ [['b'], ['c']] then
      closeLiteral xid (behind (w ++ [c]) (quotedRest '"' cs))
    else if c = '\'' ∧ hashes = [] ∧ w = ['b'] then lexChar xid (w ++ [c]) cs
    else if w = ['r'] ∧ hashes = ['#'] ∧ xid.identStart c then
      some (.rawIdent (c :: cs.takeWhile xid.identRest), cs.dropWhile xid.identRest)
    else some (.word w, rest)

/-- The first lexeme of a text, and the rest of the text. -/
def lexOne : List Char → Option (Lexeme × List Char)
  | [] => none
  | c :: cs =>
    if c = '/' ∧ cs.head? = some '/' then
      some (.lineComment (c :: cs.takeWhile (· ≠ '\n')), cs.dropWhile (· ≠ '\n'))
    else if c = '/' ∧ cs.head? = some '*' then
      (blockRest 0 cs.tail).map fun (taken, rest) => (.blockComment (c :: '*' :: taken), rest)
    else if c = '"' then closeLiteral xid (behind [c] (quotedRest c cs))
    else if c = '\'' then lexQuote xid cs
    else if isSpace c then some (.space c, cs)
    else if xid.identStart c ∨ c.isDigit then
      lexWord xid (c :: cs.takeWhile xid.identRest) (cs.dropWhile xid.identRest)
    else some (.punct c, cs)

/-- The lexemes of a text, with a bound on their number. -/
def lexUpTo : Nat → List Char → Option (List Lexeme)
  | _, [] => some []
  | 0, _ :: _ => none
  | n + 1, c :: cs => do
    let (x, rest) ← lexOne xid (c :: cs)
    let xs ← lexUpTo n rest
    return x :: xs

/-- The lexemes of a text that has no line `#!` at its start. -/
def lex (src : List Char) : Option (List Lexeme) := lexUpTo xid src.length src

end

/-! What is taken is a piece of the text. -/

theorem behind_some : behind front r = some (taken, rest) ↔
    ∃ more, r = some (more, rest) ∧ taken = front ++ more := by
  rw [behind, Option.map_eq_some_iff]
  constructor
  · rintro ⟨⟨more, rest⟩, hr, he⟩
    cases he
    exact ⟨more, hr, rfl⟩
  · rintro ⟨more, hr, rfl⟩
    exact ⟨_, hr, rfl⟩

theorem blockRest_some (h : blockRest depth cs = some (taken, rest)) : cs = taken ++ rest := by
  fun_induction blockRest depth cs generalizing taken with
  | case1 => cases h
  | case2 => cases h
  | case3 =>
    cases h
    rfl
  | case4 _ _ _ _ _ ih | case5 _ _ _ _ _ _ ih | case6 _ _ _ _ _ _ ih =>
    obtain ⟨more, hr, rfl⟩ := behind_some.mp h
    rw [ih hr]
    rfl

theorem quotedRest_some (h : quotedRest quote cs = some (taken, rest)) :
    cs = taken ++ rest ∧ taken.getLast? = some quote := by
  fun_induction quotedRest quote cs generalizing taken with
  | case1 => cases h
  | case2 | case4 =>
    cases h
    exact ⟨rfl, rfl⟩
  | case3 => cases h
  | case5 _ _ _ ih | case6 _ _ _ _ _ ih =>
    obtain ⟨more, hr, rfl⟩ := behind_some.mp h
    obtain ⟨hcs, hlast⟩ := ih hr
    rw [hcs]
    exact ⟨rfl, List.mem_getLast?_append_of_mem_getLast? hlast⟩

theorem rawRest_some (h : rawRest hashes cs = some (taken, rest)) :
    cs = taken ++ rest ∧ ∃ body, taken = body ++ '"' :: hashes := by
  fun_induction rawRest hashes cs generalizing taken with
  | case1 => cases h
  | case2 _ _ hq =>
    cases h
    obtain ⟨rfl, tail, rfl⟩ := hq
    rw [List.drop_left]
    exact ⟨rfl, [], rfl⟩
  | case3 _ _ _ ih =>
    obtain ⟨more, hr, rfl⟩ := behind_some.mp h
    obtain ⟨hcs, body, rfl⟩ := ih hr
    rw [hcs]
    exact ⟨rfl, _ :: body, rfl⟩

/-- What ends a literal that has no suffix. -/
def closers : List Char := ['"', '\'', '#']

/-- What was taken off a text is the front of a literal up to its end. -/
def Closes (src : List Char) (r : Option (List Char × List Char)) : Prop :=
  ∀ taken rest, r = some (taken, rest) →
    src = taken ++ rest ∧ ∃ q ∈ closers, taken.getLast? = some q

theorem Closes.behind (h : Closes src r) (front : List Char) :
    Closes (front ++ src) (behind front r) := by
  intro taken rest hr
  obtain ⟨more, hmore, rfl⟩ := behind_some.mp hr
  obtain ⟨rfl, q, hq, hlast⟩ := h more rest hmore
  exact ⟨(List.append_assoc ..).symm, q, hq, List.mem_getLast?_append_of_mem_getLast? hlast⟩

theorem quotedRest_closes (hq : quote ∈ closers) (cs : List Char) :
    Closes cs (quotedRest quote cs) := by
  intro taken rest hr
  obtain ⟨hcs, hlast⟩ := quotedRest_some hr
  exact ⟨hcs, quote, hq, hlast⟩

theorem rawRest_closes (h : ∀ c ∈ hashes, c = '#') (cs : List Char) :
    Closes cs (rawRest hashes cs) := by
  intro taken rest hr
  obtain ⟨hcs, body, rfl⟩ := rawRest_some hr
  refine ⟨hcs, ?_⟩
  cases hs : hashes.getLast? with
  | none =>
    rw [List.getLast?_eq_none_iff.mp hs]
    exact ⟨'"', by decide, List.getLast?_concat⟩
  | some c =>
    refine ⟨'#', by decide, ?_⟩
    rw [← h c (List.mem_of_getLast? hs), List.append_cons]
    exact List.mem_getLast?_append_of_mem_getLast? hs

section
variable {xid : Xid}

theorem identRest_name (h : xid.identRest c) : isNameChar c := by
  rw [Xid.identRest, Bool.or_eq_true, Bool.and_eq_true] at h
  rw [isNameChar, Bool.or_eq_true]
  exact h.imp_right And.left

theorem start_name (h : xid.identStart c ∨ c.isDigit) : isNameChar c := by
  rw [isNameChar, isWordChar, Char.isAlphanum]
  rcases h with h | h
  · rw [Xid.identStart, Bool.or_eq_true, Bool.or_eq_true, Bool.and_eq_true] at h
    rcases h with (h | h) | h <;> simp [h]
  · simp [h]

/-- A word that starts with a character of identifiers or a digit has only characters of names. -/
theorem word_name (h : xid.identStart c ∨ c.isDigit) (cs : List Char) :
    ∀ d ∈ c :: cs.takeWhile xid.identRest, isNameChar d := by
  intro d hd
  rcases List.mem_cons.mp hd with rfl | hd
  · exact start_name h
  · exact identRest_name (List.mem_takeWhile_imp hd)

theorem slash_notMem_name {w : List Char} (h : ∀ c ∈ w, isNameChar c) : '/' ∉ w :=
  fun hmem => absurd (h '/' hmem) (by decide)

theorem suffix_append (cs : List Char) : (suffix xid cs).1 ++ (suffix xid cs).2 = cs := by
  cases cs with
  | nil => rfl
  | cons c cs =>
    rw [suffix]
    split
    · exact congrArg (c :: ·) List.takeWhile_append_dropWhile
    · rfl

theorem slash_notMem_suffix (cs : List Char) : '/' ∉ (suffix xid cs).1 := by
  cases cs with
  | nil => exact List.not_mem_nil
  | cons c cs =>
    rw [suffix]
    split
    · exact slash_notMem_name (word_name (.inl ‹_›) cs)
    · exact List.not_mem_nil

end

/-- What a lexeme is like, and what may follow it. -/
def Lexeme.Fits : Lexeme → List Char → Prop
  | .space c, _ => isSpace c
  | .lineComment text, rest =>
    ∃ body, text = '/' :: '/' :: body ∧ '\n' ∉ body ∧ ∀ c ∈ rest.head?, c = '\n'
  | .blockComment text, rest =>
    ∃ body, text = '/' :: '*' :: body ∧ blockRest 0 (body ++ rest) = some (body, rest)
  | .word name, _ | .rawIdent name, _ => ∀ c ∈ name, isNameChar c
  | .lifetime text, _ => '/' ∉ text
  | .literal text, _ => text.getLast? ≠ some '/'
  | .punct c, rest => c = '/' → rest.head? ≠ some '/' ∧ rest.head? ≠ some '*'

/-- A lexeme is taken off the front of a text. -/
structure Taken (src : List Char) (x : Lexeme) (rest : List Char) : Prop where
  text : src = x.text ++ rest
  nonempty : x.text ≠ []
  fits : x.Fits rest

theorem Taken.length_lt (h : Taken src x rest) : rest.length < src.length := by
  rw [h.text, List.length_append]
  exact Nat.lt_add_of_pos_left (List.length_pos_of_ne_nil h.nonempty)

section
variable {xid : Xid}

theorem closeLiteral_taken (hr : Closes src r) (h : closeLiteral xid r = some (x, rest)) :
    Taken src x rest := by
  obtain ⟨⟨front, more⟩, hsome, he⟩ := Option.map_eq_some_iff.mp h
  cases he
  obtain ⟨rfl, q, hq, hlast⟩ := hr front more hsome
  have hfront : front ≠ [] := fun hnil => by rw [hnil] at hlast; cases hlast
  refine ⟨?_, List.append_ne_nil_of_left_ne_nil hfront _, fun hslash => ?_⟩
  · rw [Lexeme.text, List.append_assoc, suffix_append]
  · rw [List.getLast?_append, hlast] at hslash
    cases hs : (suffix xid more).1.getLast? with
    | none =>
      rw [hs] at hslash
      cases hslash
      revert hq
      decide
    | some c =>
      rw [hs] at hslash
      cases hslash
      exact slash_notMem_suffix more (List.mem_of_getLast? hs)

theorem lexChar_taken (h : lexChar xid front cs = some (x, rest)) : Taken (front ++ cs) x rest := by
  cases cs with
  | nil => cases h
  | cons c cs =>
    rw [lexChar] at h
    split at h
    · exact closeLiteral_taken ((quotedRest_closes (by decide) _).behind front) h
    · split at h
      · rename_i hquote
        obtain ⟨tail, rfl⟩ := List.head?_eq_some_iff.mp hquote
        refine closeLiteral_taken (fun taken more hr => ?_) h
        cases hr
        refine ⟨?_, '\'', by decide, List.mem_getLast?_append_of_mem_getLast? rfl⟩
        rw [List.append_assoc]
        rfl
      · cases h

theorem lifetime_taken (h : xid.identStart c ∨ c.isDigit) (cs : List Char) :
    Taken ('\'' :: c :: cs) (.lifetime ('\'' :: c :: cs.takeWhile xid.identRest))
      (cs.dropWhile xid.identRest) := by
  have hslash : '/' ∉ '\'' :: c :: cs.takeWhile xid.identRest :=
    List.not_mem_cons_of_ne_of_not_mem (by decide) (slash_notMem_name (word_name h cs))
  exact ⟨congrArg ('\'' :: c :: ·) List.takeWhile_append_dropWhile.symm, List.cons_ne_nil _ _,
    hslash⟩

/-- A raw lifetime goes on behind a hash. -/
theorem rawLifetime_taken (h : Taken src (.lifetime text) ('#' :: d :: ds))
    (hd : xid.identStart d) :
    Taken src (.lifetime (text ++ '#' :: d :: ds.takeWhile xid.identRest))
      (ds.dropWhile xid.identRest) := by
  have hname := slash_notMem_name (word_name (.inl hd) ds)
  refine ⟨?_, List.append_ne_nil_of_left_ne_nil h.nonempty _, fun hmem => ?_⟩
  · change src = (text ++ ('#' :: d :: ds.takeWhile xid.identRest)) ++ ds.dropWhile xid.identRest
    rw [List.append_assoc, List.cons_append, List.cons_append, List.takeWhile_append_dropWhile]
    exact h.text
  · rcases List.mem_append.mp hmem with hmem | hmem
    · exact h.fits hmem
    · exact (List.mem_cons.mp hmem).elim (by decide) hname

theorem lexQuote_taken (h : lexQuote xid cs = some (x, rest)) : Taken ('\'' :: cs) x rest := by
  cases cs with
  | nil => cases h
  | cons c cs =>
    simp only [lexQuote] at h
    split at h
    · exact lexChar_taken h
    · split at h
      · rename_i hstart
        have hlifetime := lifetime_taken hstart cs
        split at h
        · cases h
        · rename_i d ds hrest
          split at h
          · rename_i hraw
            cases h
            rw [hrest] at hlifetime
            exact rawLifetime_taken hlifetime hraw.2
          · cases h
            exact hlifetime
        · cases h
          exact hlifetime
      · cases h

theorem rawIdent_taken (h : xid.identStart c) (cs : List Char) :
    Taken ('r' :: '#' :: c :: cs) (.rawIdent (c :: cs.takeWhile xid.identRest))
      (cs.dropWhile xid.identRest) :=
  ⟨congrArg ('r' :: '#' :: c :: ·) List.takeWhile_append_dropWhile.symm, List.cons_ne_nil _ _,
    word_name (.inl h) cs⟩

theorem lexWord_taken (hne : w ≠ []) (hname : ∀ c ∈ w, isNameChar c)
    (h : lexWord xid w rest = some (x, more)) : Taken (w ++ rest) x more := by
  have hrest := List.takeWhile_append_dropWhile (p := (· = '#')) (l := rest)
  have hhash : ∀ c ∈ rest.takeWhile (· = '#'), c = '#' :=
    fun c hc => of_decide_eq_true (List.mem_takeWhile_imp (p := (· = '#')) hc)
  have hword : Taken (w ++ rest) (.word w) rest := ⟨rfl, hne, hname⟩
  simp only [lexWord] at h
  split at h
  · cases h
    exact hword
  · rename_i c cs hcs
    rw [hcs] at hrest
    split at h
    · rename_i hraw
      have hcloses := (rawRest_closes hhash cs).behind (w ++ rest.takeWhile (· = '#') ++ [c])
      rw [List.append_assoc, List.append_assoc, List.singleton_append, hrest] at hcloses
      exact closeLiteral_taken hcloses h
    · split at h
      · rename_i hstring
        have hclosers : '"' ∈ closers := by decide
        have hcloses := (quotedRest_closes hclosers cs).behind (w ++ [c])
        rw [hstring.2.1] at hrest
        rw [List.append_assoc, List.singleton_append, ← List.nil_append (c :: cs), hrest] at hcloses
        exact closeLiteral_taken hcloses h
      · split at h
        · rename_i hchar
          have htaken := lexChar_taken h
          rw [hchar.2.1] at hrest
          rw [List.append_assoc, List.singleton_append, ← List.nil_append (c :: cs), hrest]
            at htaken
          exact htaken
        · split at h
          · rename_i hraw
            cases h
            rw [hraw.2.1] at hrest
            rw [hraw.1, ← hrest]
            exact rawIdent_taken hraw.2.2 cs
          · cases h
            exact hword

theorem lineComment_taken (cs : List Char) :
    Taken ('/' :: '/' :: cs) (.lineComment ('/' :: '/' :: cs.takeWhile (· ≠ '\n')))
      (cs.dropWhile (· ≠ '\n')) := by
  have hnewline : ∀ c ∈ (cs.dropWhile (· ≠ '\n')).head?, c = '\n' := by
    intro c hc
    have hnot := List.head?_dropWhile_not (· ≠ '\n') cs
    rw [Option.mem_def.mp hc] at hnot
    exact not_not.mp (of_decide_eq_false hnot)
  refine ⟨congrArg ('/' :: '/' :: ·) List.takeWhile_append_dropWhile.symm, List.cons_ne_nil _ _,
    _, rfl, fun hmem => ?_, hnewline⟩
  exact of_decide_eq_true (List.mem_takeWhile_imp (p := (· ≠ '\n')) hmem) rfl

theorem blockComment_taken (h : blockRest 0 cs = some (body, rest)) :
    Taken ('/' :: '*' :: cs) (.blockComment ('/' :: '*' :: body)) rest := by
  obtain rfl := blockRest_some h
  exact ⟨rfl, List.cons_ne_nil _ _, body, rfl, h⟩

theorem lexOne_taken (h : lexOne xid src = some (x, rest)) : Taken src x rest := by
  cases src with
  | nil => cases h
  | cons c cs =>
    rw [lexOne] at h
    split at h
    · rename_i hc
      obtain ⟨rfl, hslash⟩ := hc
      obtain ⟨tail, rfl⟩ := List.head?_eq_some_iff.mp hslash
      cases h
      exact lineComment_taken tail
    · split at h
      · rename_i hc
        obtain ⟨rfl, hstar⟩ := hc
        obtain ⟨tail, rfl⟩ := List.head?_eq_some_iff.mp hstar
        obtain ⟨⟨body, more⟩, hbody, he⟩ := Option.map_eq_some_iff.mp h
        cases he
        exact blockComment_taken hbody
      · split at h
        · rename_i hquote
          subst hquote
          exact closeLiteral_taken ((quotedRest_closes (by decide) cs).behind ['"']) h
        · split at h
          · rename_i hquote
            subst hquote
            exact lexQuote_taken h
          · split at h
            · rename_i hspace
              cases h
              exact ⟨rfl, List.cons_ne_nil _ _, hspace⟩
            · split at h
              · rename_i hstart
                have htaken := lexWord_taken (List.cons_ne_nil _ _) (word_name hstart cs) h
                rw [List.cons_append, List.takeWhile_append_dropWhile] at htaken
                exact htaken
              · rename_i hline hblock _ _ _ _
                cases h
                refine ⟨rfl, List.cons_ne_nil _ _, fun hslash => ?_⟩
                exact ⟨fun h => hline ⟨hslash, h⟩, fun h => hblock ⟨hslash, h⟩⟩

theorem lexUpTo_enough (hm : src.length ≤ m) (hn : src.length ≤ n) :
    lexUpTo xid m src = lexUpTo xid n src := by
  induction m generalizing n src with
  | zero =>
    rw [List.eq_nil_of_length_eq_zero (Nat.le_zero.mp hm), lexUpTo, lexUpTo]
  | succ m ih =>
    cases src with
    | nil => rw [lexUpTo, lexUpTo]
    | cons c cs =>
      cases n with
      | zero => cases hn
      | succ n =>
        rw [lexUpTo, lexUpTo]
        cases hx : lexOne xid (c :: cs) with
        | none => rfl
        | some p =>
          have hlen := (show Taken _ p.1 p.2 from lexOne_taken hx).length_lt
          change (do let xs ← lexUpTo xid m p.2; _) = (do let xs ← lexUpTo xid n p.2; _)
          rw [ih (n := n) (by omega) (by omega)]

/-- A text has its first lexeme in front of the lexemes of its rest. -/
theorem lex_cons (h : lex xid (c :: cs) = some ls) :
    ∃ x rest xs, lexOne xid (c :: cs) = some (x, rest) ∧ lex xid rest = some xs ∧ ls = x :: xs := by
  rw [lex, List.length_cons, lexUpTo] at h
  obtain ⟨⟨x, rest⟩, hx, h⟩ := Option.bind_eq_some_iff.mp h
  obtain ⟨xs, hxs, he⟩ := Option.bind_eq_some_iff.mp h
  cases he
  have hlen := (lexOne_taken hx).length_lt
  rw [lexUpTo_enough (Nat.le_of_lt_succ hlen) (Nat.le_refl _)] at hxs
  exact ⟨x, rest, xs, hx, hxs, rfl⟩

/-- The lexemes of a text, one off its front after the other. -/
inductive Lexes : List Char → List Lexeme → Prop where
  | nil : Lexes [] []
  | cons : Taken src x rest → Lexes rest xs → Lexes src (x :: xs)

theorem lex_lexes (h : lex xid src = some ls) : Lexes src ls := by
  induction hn : src.length using Nat.strong_induction_on generalizing src ls with
  | _ n ih =>
    cases src with
    | nil =>
      cases h
      exact .nil
    | cons c cs =>
      obtain ⟨x, rest, xs, hx, hxs, rfl⟩ := lex_cons h
      have htaken := lexOne_taken hx
      exact .cons htaken (ih _ (hn ▸ htaken.length_lt) hxs rfl)

theorem Lexes.text (h : Lexes src ls) : src = ls.flatMap Lexeme.text := by
  induction h with
  | nil => rfl
  | cons htaken _ ih => rw [htaken.text, List.flatMap_cons, ← ih]

theorem Lexes.nonempty (h : Lexes src ls) : ∀ x ∈ ls, x.text ≠ [] := by
  induction h with
  | nil => exact List.forall_mem_nil _
  | cons htaken _ ih => exact List.forall_mem_cons.mpr ⟨htaken.nonempty, ih⟩

theorem Lexes.fits (h : Lexes src ls) : ∀ x ∈ ls, ∃ rest, x.Fits rest := by
  induction h with
  | nil => exact List.forall_mem_nil _
  | cons htaken _ ih => exact List.forall_mem_cons.mpr ⟨⟨_, htaken.fits⟩, ih⟩

end

end Lib.RustLexer
