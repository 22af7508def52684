import LameOS.Config

/-!
# `string.c`

A string is the list of its bytes; what follows the list is the terminator, and a zero byte in it
ends the string early.

* `strlen`, `strnlen`      lengths;
* `tolower`, `isdigit`, `tonumericdigit`   characters;
* `strncmp`, `istrncmp`    comparisons of bytes in memory, `cstr` gives the bytes of a string.
-/

set_option linter.unusedVariables false

namespace LameOS

/-- the bytes of a string in memory -/
def cstr (s : List UInt8) (i : Nat) : UInt8 := s.getD i 0

def tolower (s1 : UInt8) : UInt8 := if 65 ≤ s1 ∧ s1 ≤ 90 then s1 + 32 else s1

def strlen : List UInt8 → Nat
  | [] => 0
  | c :: cs => if c ≠ 0 then strlen cs + 1 else 0

def strnlen : List UInt8 → Nat → Nat
  | _, 0 => 0
  | [], _ => 0
  | c :: cs, max + 1 => if c = 0 then 0 else strnlen cs max + 1

def isdigit (c : UInt8) : Bool := 48 ≤ c && c ≤ 57

def tonumericdigit (c : UInt8) : Int := (c.toNat : Int) - 48

/-- the loop of `istrncmp` at index `i`, with `n` characters left -/
def istrncmpLoop (s1 s2 : Nat → UInt8) : Nat → Nat → Int
  | 0, _ => 0
  | n + 1, i =>
    if s1 i ≠ s2 i ∧ tolower (s1 i) ≠ tolower (s2 i) then ((s1 i).toNat : Int) - (s2 i).toNat
    else if s1 i = 0 then 0
    else istrncmpLoop s1 s2 n (i + 1)

def istrncmp (s1 s2 : Nat → UInt8) (n : Nat) : Int := istrncmpLoop s1 s2 n 0

/-- the loop of `strncmp` at index `i`, with `n` characters left -/
def strncmpLoop (s1 s2 : Nat → UInt8) : Nat → Nat → Int
  | 0, _ => 0
  | n + 1, i =>
    if s1 i ≠ s2 i then ((s1 i).toNat : Int) - (s2 i).toNat
    else if s1 i = 0 then 0
    else strncmpLoop s1 s2 n (i + 1)

def strncmp (s1 s2 : Nat → UInt8) (n : Nat) : Int := strncmpLoop s1 s2 n 0

end LameOS
