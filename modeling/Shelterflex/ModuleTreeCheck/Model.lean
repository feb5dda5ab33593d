import Shelterflex.Host.Basic
import Shelterflex.Lib.RustLexer

/-! The scanner of `mod` declarations in Rust sources. -/

namespace Shelterflex.ModuleTreeCheck
open Lib.RustLexer
set_option autoImplicit true

/-- `strip_comments` from inside a line comment or a block comment, or from outside of both. -/
def stripFrom (inLine inBlock : Bool) : List Char → List Char
  | [] => []
  | c :: cs =>
    if inLine then
      if c = '\n' then '\n' :: stripFrom false inBlock cs else stripFrom inLine inBlock cs
    else if inBlock then
      match c, cs with
      | '*', '/' :: cs => stripFrom inLine false cs
      | _, cs => stripFrom inLine inBlock cs
    else
      match c, cs with
      | '/', '/' :: cs => stripFrom true inBlock cs
      | '/', '*' :: cs => stripFrom inLine true cs
      | c, cs => c :: stripFrom inLine inBlock cs

def stripComments (src : List Char) : List Char := stripFrom false false src

def flush (cur : List Char) : List (List Char) := if cur = [] then [] else [cur]

/-- `tokenize` with the start of a token at hand. -/
def tokenizeFrom (cur : List Char) : List Char → List (List Char)
  | [] => flush cur
  | c :: cs =>
    if isWordChar c then tokenizeFrom (cur ++ [c]) cs
    else if c = ';' ∨ c = '{' ∨ c = '}' then flush cur ++ [c] :: tokenizeFrom [] cs
    else flush cur ++ tokenizeFrom [] cs

def tokenize (src : List Char) : List (List Char) := tokenizeFrom [] src

def isIdent (s : List Char) : Bool :=
  s ≠ [] ∧ s.all isWordChar ∧ ¬ (s.head?.any Char.isDigit)

def i32Add (x y : Int) : Outcome Empty Int :=
  if -2 ^ 31 ≤ x + y ∧ x + y < 2 ^ 31 then .ok (x + y) else .error (.trap .overflow)

def i32SaturatingSub (x y : Int) : Int := max (-2 ^ 31) (min (x - y) (2 ^ 31 - 1))

/-- The loop of `declared_mods` over the tokens from one of them on. -/
def scan (names : List (List Char)) (depth : Int) :
    List (List Char) → Outcome Empty (List (List Char))
  | [] => .ok names
  | token :: tokens =>
    if token = ['{'] then do
      let depth ← i32Add depth 1
      scan names depth tokens
    else if token = ['}'] then scan names (i32SaturatingSub depth 1) tokens
    else if token = ['m', 'o', 'd'] ∧ depth = 0 then
      match tokens with
      | name :: term :: _ =>
        if isIdent name ∧ term = [';'] then scan (names ++ [name]) depth tokens
        else scan names depth tokens
      | _ => scan names depth tokens
    else scan names depth tokens

def declaredMods (src : List Char) : Outcome Empty (List (List Char)) :=
  scan [] 0 (tokenize (stripComments src))

end Shelterflex.ModuleTreeCheck
