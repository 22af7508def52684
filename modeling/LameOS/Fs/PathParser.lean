import LameOS.Memory.Kheap
import LameOS.Strings

/-!
# `pparser.c`: paths

The parsed path is the root with its parts in their order; every struct and every string carries
the address of its block, `next` is the rest of the list.

* `pathparserParse`   the drive and the parts of a path, or `NULL`;
* `pathparserFree`    the release of a parsed path;
* `pathAccepted`      the paths that get a root.
-/

set_option linter.unusedVariables false

namespace LameOS
open Lib Lib.Exec

/-- `struct path_part`; `part` is the string at `str` -/
structure PathPart where
  addr : Nat
  str : Nat
  part : List UInt8

/-- `struct path_root`; `first` is the head of the parts -/
structure PathRoot where
  addr : Nat
  driveNo : Int
  parts : List PathPart

/-- an access through the pointer `p` -/
def deref {σ : Type} (p : Nat) : Prog σ Unit := if p = 0 then throw .nullPointer else pure ()

/-! ## the drive -/

def pathparserPathValidFormat (filename : List UInt8) : Bool :=
  3 ≤ strnlen filename maxPath && isdigit (cstr filename 0) && cstr filename 1 = 58 &&
    cstr filename 2 = 47

/-- the drive or a negative status, and the rest of the path -/
def pathparserGetDriveByPath (path : List UInt8) : Int × List UInt8 :=
  if !pathparserPathValidFormat path then (-EBADPATH, path)
  else (tonumericdigit (cstr path 0), path.drop 3)

def pathparserCreateRoot (driveNumber : Int) : Prog Machine PathRoot := do
  let pathR ← kzalloc 8
  deref pathR
  return ⟨pathR, driveNumber, []⟩

/-! ## parts -/

/-- the loop of `pathparserGetPathPart`: the characters it stores, and the rest of the path -/
def pathPartLoop : List UInt8 → List UInt8 × List UInt8
  | [] => ([], [])
  | c :: cs =>
    if c ≠ 47 ∧ c ≠ 0 then (c :: (pathPartLoop cs).1, (pathPartLoop cs).2) else ([], c :: cs)

/-- the string with its address, none for an empty part; and the rest of the path -/
def pathparserGetPathPart (path : List UInt8) :
    Prog Machine (Option (Nat × List UInt8) × List UInt8) := do
  let resultPathPart ← kzalloc maxPath
  let (part, rest) := pathPartLoop path
  onlyIf (part ≠ []) (deref resultPathPart)
  onlyIf (maxPath < part.length) (throw .outOfBounds)
  let rest := if cstr rest 0 = 47 then rest.drop 1 else rest
  if part = [] then
    kfree resultPathPart
    return (none, rest)
  else
    return (some (resultPathPart, part), rest)

def pathparserParsePathPart (path : List UInt8) : Prog Machine (Option PathPart × List UInt8) := do
  let (pathPartStr, rest) ← pathparserGetPathPart path
  match pathPartStr with
  | none => return (none, rest)
  | some (str, part) =>
    let p ← kzalloc 8
    deref p
    return (some ⟨p, str, part⟩, rest)

/-- the loop of `pathparserParse`: the parts from here on, with at most `fuel` of them left -/
def parsePartsLoop : Nat → List UInt8 → Prog Machine (List PathPart)
  | 0, _ => throw .endlessLoop
  | fuel + 1, path => do
    let (part, rest) ← pathparserParsePathPart path
    match part with
    | none => return []
    | some part =>
      let parts ← parsePartsLoop fuel rest
      return part :: parts

def pathparserParse (path : List UInt8) : Prog Machine (Option PathRoot) :=
  if strlen path > maxPath then return none
  else
    let (res, tmpPath) := pathparserGetDriveByPath path
    if res < 0 then return none
    else do
      let pathRoot ← pathparserCreateRoot res
      let parts ← parsePartsLoop (path.length + 1) tmpPath
      return some { pathRoot with parts := parts }

/-- the loop of `pathparserFree` -/
def freePartsLoop : List PathPart → Prog Machine Unit
  | [] => return
  | part :: parts => do
    kfree part.str
    kfree part.addr
    freePartsLoop parts

def pathparserFree (root : PathRoot) : Prog Machine Unit := do
  freePartsLoop root.parts
  kfree root.addr

/-- what is left to parse behind a part -/
def pathRest (rest : List UInt8) : List UInt8 := if cstr rest 0 = 47 then rest.drop 1 else rest

/-- the names of at most `fuel` parts -/
def partNames : Nat → List UInt8 → List (List UInt8)
  | 0, _ => []
  | fuel + 1, path =>
    if (pathPartLoop path).1 = [] then []
    else (pathPartLoop path).1 :: partNames fuel (pathRest (pathPartLoop path).2)

/-- the names of the parts of a path -/
def pathNames (path : List UInt8) : List (List UInt8) := partNames (path.length + 1) (path.drop 3)

/-- the paths that get a root -/
def pathAccepted (path : List UInt8) : Bool :=
  strlen path ≤ maxPath && pathparserPathValidFormat path

end LameOS
