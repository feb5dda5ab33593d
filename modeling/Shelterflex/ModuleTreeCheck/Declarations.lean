import Shelterflex.ModuleTreeCheck.Scanner

/-! The declarations that the scanner finds, against those that the lexemes of the text make. -/

namespace Shelterflex.ModuleTreeCheck
open Lib.RustLexer
set_option autoImplicit true

def modWord : Lexeme := .word ['m', 'o', 'd']

/-- The name that an identifier gives. -/
def nameOf : Lexeme → Option (List Char)
  | .word name => if name.head?.any Char.isDigit then none else some name
  | .rawIdent name => some name
  | _ => none

def turn (opening closing : List Char) : Lexeme → Int
  | .punct c => if c ∈ opening then 1 else if c ∈ closing then -1 else 0
  | _ => 0

def braces (ls : List Lexeme) : Int := (ls.map (turn ['{'] ['}'])).sum

/-- The depth in parentheses and brackets. -/
def groups (ls : List Lexeme) : Int := (ls.map (turn ['(', '['] [')', ']'])).sum

/-- A `mod` outside of all delimiters. -/
def ModAt (code : List Lexeme) (i : Nat) : Prop :=
  code[i]? = some modWord ∧ braces (code.take i) = 0 ∧ groups (code.take i) = 0

instance : Decidable (ModAt code i) :=
  inferInstanceAs (Decidable (_ ∧ _ ∧ _))

/-- The name of the declaration `mod NAME;` that starts at a place of the code. -/
def declaredAt (code : List Lexeme) (i : Nat) : Option (List Char) :=
  if ModAt code i ∧ code[i + 2]? = some (.punct ';') then code[i + 1]?.bind nameOf else none

def modDeclarations (ls : List Lexeme) : List (List Char) :=
  (List.range (codeOf ls).length).filterMap (declaredAt (codeOf ls))

/-- A text of Rust: outside of all delimiters `mod` starts a declaration or an inline module. -/
structure RustText (xid : Xid) (src : List Char) (ls : List Lexeme) : Prop where
  lexes : lex xid src = some ls
  mods : ∀ i < (codeOf ls).length, ModAt (codeOf ls) i →
    (codeOf ls)[i + 1]?.any (fun x => (nameOf x).isSome) ∧
      ((codeOf ls)[i + 2]? = some (.punct ';') ∨ (codeOf ls)[i + 2]? = some (.punct '{'))

def isAsciiName : Lexeme → Bool
  | .word name => isIdent name
  | _ => false

/-- What the scanner does without: the structure of comments, literals, groups and names. -/
structure Plain (src : List Char) (ls : List Lexeme) : Prop where
  /-- No block comment has another inside, no literal has the start of a comment. -/
  strips : ∀ x ∈ ls, Strips x
  /-- No two words run together when the comments are taken out. -/
  apart : (ls.filter (! ·.isComment)).IsChain Apart
  /-- The braces inside of the literals before a `mod` do not change whether it is nested. -/
  level : ∀ i < (codeOf ls).length, (codeOf ls)[i]? = some modWord →
    (depthOf (tokens ((codeOf ls).take i)) = 0 ↔ braces ((codeOf ls).take i) = 0)
  /-- Outside of braces no `mod` stands in parentheses or brackets. -/
  ungrouped : ∀ i < (codeOf ls).length, (codeOf ls)[i]? = some modWord →
    braces ((codeOf ls).take i) = 0 → groups ((codeOf ls).take i) = 0
  /-- The declared names are ASCII and not raw. -/
  named : ∀ i < (codeOf ls).length, ModAt (codeOf ls) i →
    (codeOf ls)[i + 2]? = some (.punct ';') → (codeOf ls)[i + 1]?.any isAsciiName
  /-- Outside of braces `mod` is a word of no lexeme but itself. -/
  bare : ∀ i, (h : i < (codeOf ls).length) → (codeOf ls)[i] ≠ modWord →
    ∀ k < (tokenize (codeOf ls)[i].text).length,
      (tokenize (codeOf ls)[i].text)[k]? = some ['m', 'o', 'd'] →
        depthOf (tokens ((codeOf ls).take i)) + depthOf ((tokenize (codeOf ls)[i].text).take k) ≠ 0
  /-- The depth is a number of type `i32`. -/
  small : src.count '{' < 2 ^ 31 ∧ src.count '}' < 2 ^ 31

/-! Places of the code. -/

theorem tokens_append (as bs : List Lexeme) : tokens (as ++ bs) = tokens as ++ tokens bs :=
  List.flatMap_append

theorem tokens_cons (x : Lexeme) (xs : List Lexeme) :
    tokens (x :: xs) = tokenize x.text ++ tokens xs := rfl

theorem tokens_concat (as : List Lexeme) (x : Lexeme) :
    tokens (as ++ [x]) = tokens as ++ tokenize x.text := by
  rw [tokens_append, tokens_cons]
  exact congrArg _ (List.append_nil _)

theorem get_here (hcode : code = pre ++ x :: rest) : code[pre.length]? = some x := by
  rw [hcode, List.getElem?_append_right le_rfl, Nat.sub_self]
  rfl

theorem get_behind (hcode : code = pre ++ x :: rest) (k : Nat) :
    code[pre.length + (k + 1)]? = rest[k]? := by
  rw [hcode, List.getElem?_append_right (Nat.le_add_right _ _), Nat.add_sub_cancel_left]
  rfl

theorem take_here (hcode : code = pre ++ x :: rest) : code.take pre.length = pre := by
  rw [hcode, List.take_left]

theorem lt_length (hcode : code = pre ++ x :: rest) : pre.length < code.length := by
  rw [hcode, List.length_append, List.length_cons]
  omega

theorem filterMap_range'_succ (f : Nat → Option α) (i n : Nat) :
    (List.range' i (n + 1)).filterMap f = (f i).toList ++ (List.range' (i + 1) n).filterMap f := by
  rw [List.range'_succ, List.filterMap_cons]
  cases f i <;> rfl

theorem nameOf_ident (h : isIdent name) : nameOf (.word name) = some name := by
  obtain ⟨_, _, hdigit⟩ := of_decide_eq_true h
  exact if_neg hdigit

theorem declaredAt_none (h : ¬ (ModAt code i ∧ code[i + 2]? = some (.punct ';'))) :
    declaredAt code i = none := if_neg h

section
variable {xid : Xid} {src : List Char} {ls pre rest : List Lexeme}

theorem semicolon_notMem (h : Lexes src ls) (hx : x ∈ codeOf ls) (hname : (nameOf x).isSome) :
    ';' ∉ x.text := by
  obtain ⟨rest, hfits⟩ := h.fits x (List.mem_of_mem_filter hx)
  cases x with
  | word name => exact fun hmem => absurd (hfits ';' hmem) (by decide)
  | rawIdent name =>
    have hnot : ';' ∉ name := fun hmem => absurd (hfits ';' hmem) (by decide)
    simpa [Lexeme.text] using hnot
  | _ => cases hname

/-- Behind a `mod` outside of all delimiters the scanner finds a declaration, and passes over an
inline module. -/
theorem hit_item (hname : rest[0]?.any (fun x => (nameOf x).isSome))
    (hend : rest[1]? = some (.punct ';') ∨ rest[1]? = some (.punct '{'))
    (hascii : rest[1]? = some (.punct ';') → rest[0]?.any isAsciiName)
    (hsemicolon : ∀ y ∈ rest, (nameOf y).isSome → ';' ∉ y.text) :
    hit (tokens rest) =
      (if rest[1]? = some (.punct ';') then rest[0]?.bind nameOf else none).toList := by
  rcases rest with _ | ⟨y, _ | ⟨z, more⟩⟩
  · cases hname
  · rcases hend with h | h <;> cases h
  · rcases hend with h | h
    · cases h
      have hy : isAsciiName y := hascii rfl
      cases y with
      | word name =>
        calc hit (tokens (.word name :: .punct ';' :: more)) = [name] :=
              hit_declaration hy (tokens more)
          _ = (nameOf (.word name)).toList := by
            rw [nameOf_ident hy]
            rfl
      | _ => cases hy
    · cases h
      have hinline : (y :: .punct '{' :: more)[1]? ≠ some (.punct ';') := by
        intro h
        cases h
      rw [if_neg hinline, tokens_cons, tokens_cons]
      exact hit_inline (hsemicolon y List.mem_cons_self hname) (tokens more)

theorem hit_declared (hrust : RustText xid src ls) (hplain : Plain src ls)
    (hcode : codeOf ls = pre ++ modWord :: rest) :
    (if depthOf (tokens pre) = 0 then hit (tokens rest) else []) =
      (declaredAt (codeOf ls) pre.length).toList := by
  have hget := get_here hcode
  have hlt := lt_length hcode
  have hlevel := hplain.level pre.length hlt hget
  have hgroups := hplain.ungrouped pre.length hlt hget
  have hmods := hrust.mods pre.length hlt
  have hnamed := hplain.named pre.length hlt
  rw [take_here hcode] at hlevel hgroups
  rw [get_behind hcode 0, get_behind hcode 1] at hnamed hmods
  by_cases hbraces : braces pre = 0
  · have hmod : ModAt (codeOf ls) pre.length := by
      rw [ModAt, take_here hcode]
      exact ⟨hget, hbraces, hgroups hbraces⟩
    have hsemicolon : ∀ y ∈ rest, (nameOf y).isSome → ';' ∉ y.text := by
      intro y hy
      refine semicolon_notMem (lex_lexes hrust.lexes) ?_
      rw [hcode]
      exact List.mem_append_right _ (List.mem_cons_of_mem _ hy)
    obtain ⟨hname, hend⟩ := hmods hmod
    rw [if_pos (hlevel.mpr hbraces), hit_item hname hend (hnamed hmod) hsemicolon, declaredAt,
      get_behind hcode 0, get_behind hcode 1]
    simp only [hmod, true_and]
  · rw [if_neg (mt hlevel.mp hbraces), declaredAt_none]
    · rfl
    · rintro ⟨hmod, _⟩
      exact hbraces (take_here hcode ▸ hmod.2.1)

theorem found_declared (hrust : RustText xid src ls) (hplain : Plain src ls)
    (pre : List Lexeme) (hcode : codeOf ls = pre ++ rest) :
    found (depthOf (tokens pre)) (tokens rest) =
      (List.range' pre.length rest.length).filterMap (declaredAt (codeOf ls)) := by
  induction rest generalizing pre with
  | nil => rfl
  | cons x rest ih =>
    have hget := get_here hcode
    have hlt := lt_length hcode
    have hnext := ih (pre ++ [x]) (hcode.trans (List.append_cons ..))
    rw [tokens_concat, depthOf_append, List.length_append, List.length_singleton] at hnext
    rw [List.length_cons, filterMap_range'_succ, ← hnext]
    by_cases hx : x = modWord
    · subst hx
      have hturn : tokenTurn ['m', 'o', 'd'] = depthOf (tokenize modWord.text) := rfl
      have htokens : tokens (modWord :: rest) = ['m', 'o', 'd'] :: tokens rest := rfl
      rw [← hit_declared hrust hplain hcode, htokens, found, hturn]
      simp only [true_and]
    · have hbare := hplain.bare pre.length hlt
      have hx' : (codeOf ls)[pre.length] = x := by
        rw [List.getElem?_eq_getElem hlt] at hget
        exact Option.some.inj hget
      rw [hx', take_here hcode] at hbare
      rw [tokens_cons, found_append (hbare hx), declaredAt_none]
      · rfl
      · rintro ⟨hmod, _⟩
        exact hx (Option.some.inj (hget.symm.trans hmod.1))

theorem declaredMods_found (hrust : RustText xid src ls) (hplain : Plain src ls) :
    declaredMods src = .ok (modDeclarations ls) := by
  have hlexes := lex_lexes hrust.lexes
  have hsub : (uncomment ls).Sublist src := by
    rw [hlexes.text]
    exact uncomment_sublist ls
  have hfound := found_declared hrust hplain [] (List.nil_append _)
  rw [declaredMods, strip_lexes hlexes hplain.strips, scan_ok hplain.small hsub,
    tokenize_uncomment hlexes hplain.apart]
  rw [modDeclarations, List.range_eq_range']
  exact congrArg _ hfound

end

/-! What is in literals and comments does not matter to the language. -/

def latin : Xid := ⟨(· = 'é'), (· = 'é')⟩

def sampleItem : List Lexeme :=
  [modWord, .space ' ', .word "alpha".toList, .punct ';']

end Shelterflex.ModuleTreeCheck
