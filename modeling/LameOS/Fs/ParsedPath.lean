import LameOS.Fs.PathParser
import LameOS.Lib.Split
import LameOS.Memory.Owns
import Mathlib.Data.List.TakeWhile

/-!
# What `pparser.c` makes of a path

A path is the drive, `:/` and the pieces between the slashes behind it; some pieces may be empty.

* `pathPieces`, `pathComponents`   the pieces of a path, and those that are not empty;
* `pathNames_eq`            the parts of a path are its pieces up to the first empty one;
* `pathparserParse_rendered`   a path that is put together from components is taken apart again;
* `parse_keeps_parts_iff`   no component is lost exactly when none follows an empty piece;
* `parse_then_free`         what is parsed is released, and the heap is as before.
-/

set_option linter.unusedVariables false

namespace LameOS
open Lib Lib.Exec

/-! ## the text of a path -/

/-- the bytes in front of the terminator -/
def pathText (path : List UInt8) : List UInt8 := path.takeWhile (· ≠ 0)

/-- the pieces between the slashes behind the drive -/
def pathPieces (path : List UInt8) : List (List UInt8) := ((pathText path).drop 3).splitOn 47

/-- the components that a path names -/
def pathComponents (path : List UInt8) : List (List UInt8) := fullPieces 47 ((pathText path).drop 3)

/-- the digit of a drive, `:/`, and the names joined by slashes -/
def renderPath (d : UInt8) (names : List (List UInt8)) : List UInt8 :=
  d :: 58 :: 47 :: [47].intercalate names

theorem strlen_eq (path : List UInt8) : strlen path = (pathText path).length := by
  induction path with
  | nil => rfl
  | cons c cs ih =>
    unfold strlen pathText
    by_cases hc : c = 0
    · rw [if_neg (not_not_intro hc), List.takeWhile_cons_of_neg (by simp [hc])]
      rfl
    · rw [if_pos hc, List.takeWhile_cons_of_pos (by simp [hc]), List.length_cons, ih]
      rfl

theorem pathText_append {name : List UInt8} (h : ∀ c ∈ name, c ≠ 0) (rest : List UInt8) :
    pathText (name ++ rest) = name ++ pathText rest :=
  List.takeWhile_append_of_pos (fun c hc => decide_eq_true (h c hc))

theorem pathText_self {path : List UInt8} (h : ∀ c ∈ path, c ≠ 0) : pathText path = path := by
  have e := pathText_append h []
  rwa [List.append_nil, show pathText [] = [] from rfl, List.append_nil] at e

theorem pathText_cons {c : UInt8} (hc : c ≠ 0) (cs : List UInt8) :
    pathText (c :: cs) = c :: pathText cs := List.takeWhile_cons_of_pos (by simp [hc])

/-! ## parts -/

/-- the part, and what stands behind it: a slash, the terminator or nothing -/
theorem pathPartLoop_split (path : List UInt8) : path = (pathPartLoop path).1 ++ (pathPartLoop path).2 ∧
    (∀ c ∈ (pathPartLoop path).1, c ≠ 47 ∧ c ≠ 0) ∧
    (cstr (pathPartLoop path).2 0 = 47 ∨ cstr (pathPartLoop path).2 0 = 0) := by
  induction path with
  | nil => exact ⟨rfl, by simp [pathPartLoop], Or.inr rfl⟩
  | cons c cs ih =>
    unfold pathPartLoop
    by_cases hc : c ≠ 47 ∧ c ≠ 0
    · rw [if_pos hc]
      obtain ⟨h1, h2, h3⟩ := ih
      refine ⟨congrArg (c :: ·) h1, fun d hd => ?_, h3⟩
      rcases List.mem_cons.mp hd with rfl | hd
      · exact hc
      · exact h2 d hd
    · rw [if_neg hc]
      refine ⟨rfl, by simp, ?_⟩
      show c = 47 ∨ c = 0
      by_contra hno
      push Not at hno
      exact hc hno

/-- **The names of the parts** are the pieces in front of the first empty one -/
theorem partNames_eq (fuel : Nat) : ∀ (path : List UInt8), path.length < fuel →
    partNames fuel path = ((pathText path).splitOn 47).takeWhile (· ≠ []) := by
  induction fuel with
  | zero => exact fun path h => absurd h (Nat.not_lt_zero _)
  | succ fuel ih =>
    intro path hlen
    obtain ⟨hsplit, hname, hrest⟩ := pathPartLoop_split path
    have hslash : 47 ∉ (pathPartLoop path).1 := fun h => (hname 47 h).1 rfl
    unfold partNames
    generalize hn : (pathPartLoop path).1 = name at hsplit hname hslash ⊢
    generalize hr : (pathPartLoop path).2 = rest at hsplit hrest ⊢
    have htext : pathText path = name ++ pathText rest := by
      rw [hsplit, pathText_append (fun c hc => (hname c hc).2)]
    have hlast : cstr rest 0 ≠ 47 → pathText rest = [] ∧ ∀ k, partNames k (pathRest rest) = [] := by
      intro hno
      have h0 := hrest.resolve_left hno
      unfold pathRest
      rw [if_neg hno]
      cases rest with
      | nil => exact ⟨rfl, fun k => by cases k <;> rfl⟩
      | cons c cs =>
        obtain rfl : c = 0 := h0
        exact ⟨rfl, fun k => by cases k <;> rfl⟩
    rw [htext]
    by_cases h47 : cstr rest 0 = 47
    · -- a slash: the rest behind it is cut in its turn
      obtain ⟨cs, rfl⟩ : ∃ cs, rest = 47 :: cs := by
        cases rest with
        | nil => cases h47
        | cons c cs => exact ⟨cs, congrArg (· :: cs) h47⟩
      have hlen' : cs.length < fuel := by
        rw [hsplit, List.length_append, List.length_cons] at hlen
        omega
      have hrest' : pathRest (47 :: cs) = cs := rfl
      rw [hrest', ih cs hlen', pathText_cons (by decide),
        List.splitOn_append_cons_self_of_not_mem hslash]
      by_cases hempty : name = []
      · rw [if_pos hempty, List.takeWhile_cons_of_neg (by simp [hempty])]
      · rw [if_neg hempty, List.takeWhile_cons_of_pos (by simp [hempty])]
    · -- the last piece
      obtain ⟨hnil, hstop⟩ := hlast h47
      rw [hnil, List.append_nil, List.splitOn_eq_singleton hslash, hstop fuel]
      by_cases hempty : name = []
      · rw [if_pos hempty, List.takeWhile_cons_of_neg (by simp [hempty])]
      · rw [if_neg hempty, List.takeWhile_cons_of_pos (by simp [hempty])]
        rfl

theorem isdigit_range {d : UInt8} (hd : isdigit d = true) : 48 ≤ d.toNat ∧ d.toNat ≤ 57 := by
  unfold isdigit at hd
  simp only [Bool.and_eq_true, decide_eq_true_eq] at hd
  exact ⟨hd.1, hd.2⟩

theorem isdigit_ne {d : UInt8} (hd : isdigit d = true) {c : UInt8} (hc : isdigit c = false) :
    d ≠ c := by
  rintro rfl
  rw [hd] at hc
  cases hc

/-- a digit, `:/` and a body -/
theorem path_shape {path : List UInt8} (hd : isdigit (cstr path 0) = true) (h1 : cstr path 1 = 58)
    (h2 : cstr path 2 = 47) : ∃ d body, path = d :: 58 :: 47 :: body ∧ isdigit d = true := by
  match path with
  | [] => cases h2
  | [_] => cases h2
  | [_, _] => cases h2
  | d :: a :: b :: body =>
    obtain rfl : a = 58 := h1
    obtain rfl : b = 47 := h2
    exact ⟨d, body, rfl, hd⟩

theorem validFormat_iff {path : List UInt8} : pathparserPathValidFormat path = true ↔
    isdigit (cstr path 0) = true ∧ cstr path 1 = 58 ∧ cstr path 2 = 47 := by
  unfold pathparserPathValidFormat
  simp only [Bool.and_eq_true, decide_eq_true_eq]
  constructor
  · exact fun h => ⟨h.1.1.2, h.1.2, h.2⟩
  · rintro ⟨hd, h1, h2⟩
    refine ⟨⟨⟨?_, hd⟩, h1⟩, h2⟩
    obtain ⟨d, body, rfl, hdigit⟩ := path_shape hd h1 h2
    have hne : d ≠ 0 := isdigit_ne hdigit rfl
    have e : strnlen (d :: 58 :: 47 :: body) maxPath = strnlen body 105 + 1 + 1 + 1 := by
      show (if d = 0 then 0 else strnlen (58 :: 47 :: body) 107 + 1) = _
      rw [if_neg hne]
      rfl
    omega

/-- an accepted path and its text -/
theorem pathAccepted_shape {path : List UInt8} (h : pathAccepted path = true) : ∃ d body,
    path = d :: 58 :: 47 :: body ∧ isdigit d = true ∧ pathText path = d :: 58 :: 47 :: pathText body := by
  unfold pathAccepted at h
  obtain ⟨-, hv⟩ := Bool.and_eq_true_iff.mp h
  obtain ⟨hd, h1, h2⟩ := validFormat_iff.mp hv
  obtain ⟨d, body, rfl, hdigit⟩ := path_shape hd h1 h2
  refine ⟨d, body, rfl, hdigit, ?_⟩
  rw [pathText_cons (isdigit_ne hdigit rfl), pathText_cons (by decide), pathText_cons (by decide)]

theorem pathNames_eq {path : List UInt8} (h : pathAccepted path = true) :
    pathNames path = (pathPieces path).takeWhile (· ≠ []) := by
  obtain ⟨d, body, rfl, -, htext⟩ := pathAccepted_shape h
  unfold pathNames pathPieces
  rw [htext]
  exact partNames_eq _ body (by simp; omega)

/-! ## what is parsed -/

section
variable {path : List UInt8} {root : PathRoot} {m m' : Machine} {n : Nat}

/-- the part that a call reads, none for an empty one -/
def namedPart (path : List UInt8) : Option (List UInt8) :=
  if (pathPartLoop path).1 = [] then none else some (pathPartLoop path).1

theorem pathparserGetPathPart_named {r : Option (Nat × List UInt8) × List UInt8}
    (h : pathparserGetPathPart path m = .ok (r, m')) :
    r.1.map Prod.snd = namedPart path ∧ r.2 = pathRest (pathPartLoop path).2 := by
  unfold pathparserGetPathPart at h
  obtain ⟨p, m1, -, h⟩ := bind_eq_ok h
  obtain ⟨u1, m2, -, h⟩ := bind_eq_ok h
  obtain ⟨u2, m3, -, h⟩ := bind_eq_ok h
  unfold namedPart
  by_cases hempty : (pathPartLoop path).1 = []
  · rw [if_pos hempty] at h ⊢
    obtain ⟨u3, m4, -, h⟩ := bind_eq_ok h
    obtain ⟨rfl, -⟩ := pure_eq_ok h
    exact ⟨rfl, rfl⟩
  · rw [if_neg hempty] at h ⊢
    obtain ⟨rfl, -⟩ := pure_eq_ok h
    exact ⟨rfl, rfl⟩

theorem pathparserParsePathPart_named {r : Option PathPart × List UInt8}
    (h : pathparserParsePathPart path m = .ok (r, m')) :
    r.1.map PathPart.part = namedPart path ∧ r.2 = pathRest (pathPartLoop path).2 := by
  unfold pathparserParsePathPart at h
  obtain ⟨⟨q, rest⟩, m1, hget, h⟩ := bind_eq_ok h
  obtain ⟨hname, hrest⟩ := pathparserGetPathPart_named hget
  cases q with
  | none =>
    obtain ⟨rfl, -⟩ := pure_eq_ok h
    exact ⟨hname, hrest⟩
  | some q =>
    obtain ⟨p, m2, -, h⟩ := bind_eq_ok h
    obtain ⟨u, m3, -, h⟩ := bind_eq_ok h
    obtain ⟨rfl, -⟩ := pure_eq_ok h
    exact ⟨hname, hrest⟩

theorem partNames_none {path : List UInt8} (fuel : Nat) (h : namedPart path = none) :
    partNames (fuel + 1) path = [] := by
  unfold namedPart at h
  split at h
  · rename_i hempty
    rw [partNames, if_pos hempty]
  · cases h

theorem partNames_some {path name : List UInt8} (fuel : Nat) (h : namedPart path = some name) :
    partNames (fuel + 1) path = name :: partNames fuel (pathRest (pathPartLoop path).2) := by
  unfold namedPart at h
  split at h
  · cases h
  · rename_i hne
    rw [partNames, if_neg hne, Option.some.inj h]

/-- **The parts**, whatever the heap is -/
theorem parsePartsLoop_names (fuel : Nat) : ∀ {path : List UInt8} {parts : List PathPart}
    {m m' : Machine}, parsePartsLoop fuel path m = .ok (parts, m') →
      parts.map PathPart.part = partNames fuel path := by
  induction fuel with
  | zero =>
    intro path parts m m' h
    cases h
  | succ fuel ih =>
    intro path parts m m' h
    unfold parsePartsLoop at h
    obtain ⟨⟨q, rest⟩, m1, hpart, h⟩ := bind_eq_ok h
    obtain ⟨hname, hrest⟩ := pathparserParsePathPart_named hpart
    dsimp only at hname hrest
    cases q with
    | none =>
      obtain ⟨rfl, -⟩ := pure_eq_ok h
      rw [partNames_none fuel hname.symm]
      rfl
    | some part =>
      obtain ⟨parts, m2, hloop, h⟩ := bind_eq_ok h
      obtain ⟨rfl, -⟩ := pure_eq_ok h
      rw [partNames_some fuel hname.symm, List.map_cons, ih hloop, hrest]

theorem tonumericdigit_nonneg {d : UInt8} (hd : isdigit d = true) : ¬ tonumericdigit d < 0 := by
  have := (isdigit_range hd).1
  unfold tonumericdigit
  omega

/-- a path that is not accepted -/
theorem pathparserParse_rejected (h : pathAccepted path = false) :
    pathparserParse path m = .ok (none, m) := by
  unfold pathparserParse
  by_cases hlen : strlen path > maxPath
  · rw [if_pos hlen]
    rfl
  · rw [if_neg hlen]
    have hv : pathparserPathValidFormat path = false := by
      unfold pathAccepted at h
      rw [decide_eq_true (not_lt.mp hlen), Bool.true_and] at h
      exact h
    unfold pathparserGetDriveByPath
    rw [hv]
    rfl

/-- an accepted path: a root, and its parts -/
theorem pathparserParse_accepted (h : pathAccepted path = true) : pathparserParse path = (do
    let pathRoot ← pathparserCreateRoot (tonumericdigit (cstr path 0))
    let parts ← parsePartsLoop (path.length + 1) (path.drop 3)
    return some { pathRoot with parts := parts }) := by
  unfold pathAccepted at h
  obtain ⟨hlen, hv⟩ := Bool.and_eq_true_iff.mp h
  have hdigit := tonumericdigit_nonneg (validFormat_iff.mp hv).1
  unfold pathparserParse
  rw [if_neg (not_lt.mpr (of_decide_eq_true hlen))]
  unfold pathparserGetDriveByPath
  rw [hv]
  exact if_neg hdigit

/-- **A root** has the drive and the names of the path, whatever the heap is -/
theorem pathparserParse_some (h : pathparserParse path m = .ok (some root, m')) :
    pathAccepted path = true ∧ root.driveNo = tonumericdigit (cstr path 0) ∧
      root.parts.map PathPart.part = pathNames path := by
  cases hacc : pathAccepted path with
  | false =>
    rw [pathparserParse_rejected hacc] at h
    cases h
  | true =>
    rw [pathparserParse_accepted hacc] at h
    obtain ⟨r, m1, hroot, h⟩ := bind_eq_ok h
    obtain ⟨parts, m2, hloop, h⟩ := bind_eq_ok h
    obtain ⟨e, -⟩ := pure_eq_ok h
    obtain rfl := Option.some.inj e
    obtain ⟨p, m3, -, hroot⟩ := bind_eq_ok hroot
    obtain ⟨u, m4, -, hroot⟩ := bind_eq_ok hroot
    obtain ⟨rfl, -⟩ := pure_eq_ok hroot
    exact ⟨rfl, rfl, parsePartsLoop_names _ hloop⟩

/-! ## allocations -/

theorem deref_owns {σ : Type} {mach : σ → Machine} {O : List Run} {s : σ} (p : Nat) :
    Owns mach O (deref p) s (fun _ s' N => p ≠ 0 ∧ s' = s ∧ N = O) := by
  unfold deref
  exact Owns.ite (fun _ => Owns.throw) (fun h => Owns.pure ⟨h, rfl, rfl⟩)

def partPtrs (part : PathPart) : List Nat := [part.addr, part.str]

def rootPtrs (root : PathRoot) : List Nat := root.addr :: root.parts.flatMap partPtrs

theorem pathparserCreateRoot_owns (driveNumber : Int) (m : Machine) :
    Owns itself [] (pathparserCreateRoot driveNumber) m (fun r _ N =>
      r.driveNo = driveNumber ∧ r.parts = [] ∧ Points [r.addr] N) := by
  unfold pathparserCreateRoot
  refine Owns.bind (kzalloc_owns_block (by decide) (by decide) m) (fun p m1 N h => ?_)
  refine Owns.bind (deref_owns p) (fun _ m2 N' h' => ?_)
  obtain ⟨hp, rfl, rfl⟩ := h'
  rcases h with ⟨b, rfl, rfl, -⟩ | ⟨h0, -, -⟩
  · exact Owns.pure ⟨rfl, rfl, Points.single (oneBlock b)⟩
  · exact absurd h0 hp

theorem pathparserGetPathPart_owns (path : List UInt8) (m : Machine) :
    Owns itself [] (pathparserGetPathPart path) m (fun r _ N =>
      Points (r.1.elim [] fun q => [q.1]) N) := by
  rcases hpart : pathPartLoop path with ⟨part, rest⟩
  unfold pathparserGetPathPart
  rw [hpart]
  refine Owns.bind (kzalloc_owns_block (by decide) (by decide) m) (fun p m1 N h => ?_)
  refine Owns.bind (Owns.onlyIf (Q := fun _ s' N' => s' = m1 ∧ N' = N ∧ (part ≠ [] → p ≠ 0))
    (fun hne => (deref_owns p).mono (fun _ s' N' h' => ⟨h'.2.1, h'.2.2, fun _ => h'.1⟩))
    (fun hne => ⟨rfl, rfl, fun h => absurd h hne⟩)) (fun _ m2 N' h2 => ?_)
  obtain ⟨rfl, rfl, hp⟩ := h2
  refine Owns.bind (Owns.onlyIf (Q := fun _ s' N'' => s' = m2 ∧ N'' = N')
    (fun _ => Owns.throw) (fun _ => ⟨rfl, rfl⟩)) (fun _ m3 N'' h3 => ?_)
  obtain ⟨rfl, rfl⟩ := h3
  refine Owns.ite (fun he => ?_) (fun hne => ?_)
  · -- an empty part is released again
    rcases h with ⟨b, rfl, rfl, -⟩ | ⟨rfl, -, -⟩
    · refine Owns.bind (kfree_owns (r := oneBlock b) m3) (fun _ m4 N4 h4 => ?_)
      rw [h4]
      exact Owns.pure Points.nil
    · exact Owns.bind (Q := fun _ _ _ => False) (kfree_null_owns m3) (fun _ _ _ h => h.elim)
  · rcases h with ⟨b, rfl, rfl, -⟩ | ⟨h0, -, -⟩
    · exact Owns.pure (Points.single (oneBlock b))
    · exact absurd h0 (hp hne)

theorem pathparserParsePathPart_owns (path : List UInt8) (m : Machine) :
    Owns itself [] (pathparserParsePathPart path) m (fun r _ N => Points (r.1.elim [] partPtrs) N) := by
  unfold pathparserParsePathPart
  refine Owns.bind (pathparserGetPathPart_owns path m) (fun r m1 N h => ?_)
  obtain ⟨q, rest⟩ := r
  cases q with
  | none => exact Owns.pure h
  | some q =>
    refine Owns.bind (kzalloc_owns_block (by decide) (by decide) m1) (fun p m2 N' h' => ?_)
    refine Owns.bind (deref_owns p) (fun _ m3 N3 h3 => ?_)
    obtain ⟨hp, rfl, rfl⟩ := h3
    rcases h' with ⟨b, rfl, rfl, -⟩ | ⟨h0, -, -⟩
    · exact Owns.pure ((Points.single (oneBlock b)).append h)
    · exact absurd h0 hp

theorem parsePartsLoop_owns (fuel : Nat) : ∀ (path : List UInt8) (m : Machine),
    Owns itself [] (parsePartsLoop fuel path) m (fun parts _ N =>
      Points (parts.flatMap partPtrs) N) := by
  induction fuel with
  | zero => exact fun _ _ => Owns.throw
  | succ fuel ih =>
    intro path m
    refine Owns.bind (pathparserParsePathPart_owns path m) (fun r m1 N h => ?_)
    obtain ⟨q, rest⟩ := r
    cases q with
    | none => exact Owns.pure h
    | some part =>
      refine Owns.bind ((ih rest m1).frame N) (fun parts m2 N2 h2 => ?_)
      obtain ⟨N', h', rfl⟩ := h2
      exact Owns.pure ((h'.append h).perm List.perm_append_comm)

/-- **A parsed path owns what its root points to, a rejected one nothing.** -/
theorem pathparserParse_owns (path : List UInt8) (m : Machine) :
    Owns itself [] (pathparserParse path) m (fun r m' N =>
      Points (r.elim [] rootPtrs) N ∧ r.isSome = pathAccepted path ∧
        (r = none → m' = m) ∧
        ∀ root, r = some root → root.parts.map PathPart.part = pathNames path) := by
  intro L r m' hh hrun
  cases hacc : pathAccepted path with
  | false =>
    rw [pathparserParse_rejected hacc] at hrun
    obtain ⟨rfl, rfl⟩ := ok_inj hrun
    exact ⟨[], ⟨Points.nil, rfl, fun _ => rfl, fun _ e => by cases e⟩, hh, Untouched.refl L _⟩
  | true =>
    have howns : Owns itself [] (pathparserParse path) m (fun r _ N =>
        ∃ root, r = some root ∧ Points (rootPtrs root) N) := by
      rw [pathparserParse_accepted hacc]
      refine Owns.bind (pathparserCreateRoot_owns _ m) (fun root m1 N h => ?_)
      refine Owns.bind ((parsePartsLoop_owns _ (path.drop 3) m1).frame N) (fun parts m2 N2 h2 => ?_)
      obtain ⟨N', h', rfl⟩ := h2
      exact Owns.pure ⟨_, rfl, (h'.append h.2.2).perm List.perm_append_comm⟩
    obtain ⟨N, ⟨root, rfl, hpoints⟩, hrest⟩ := howns L r m' hh hrun
    exact ⟨N, ⟨hpoints, rfl, (fun e => by cases e), fun r e => by
      cases e
      exact (pathparserParse_some hrun).2.2⟩, hrest⟩

/-! ## enough blocks -/

variable {P : Nat → Machine → Prop} [Supply P]

theorem deref_does {σ : Type} {p : Nat} {s : σ} (hp : p ≠ 0) :
    Does (deref p : Prog σ Unit) s (fun _ s' => s' = s) := by
  unfold deref
  rw [if_neg hp]
  exact Does.pure rfl

theorem pathparserCreateRoot_room {driveNumber : Int} (h : P (n + 1) m) :
    Does (pathparserCreateRoot driveNumber) m (fun r m' => r.driveNo = driveNumber ∧ P n m') := by
  refine Does.bind (Supply.one h (by decide) (by decide)) (fun p m1 h1 => ?_)
  refine Does.bind (deref_does h1.1) (fun _ m2 h2 => ?_)
  rw [h2]
  exact Does.pure ⟨rfl, h1.2⟩

theorem pathparserGetPathPart_room (h : P (n + 1) m)
    (hlen : (pathPartLoop path).1.length ≤ maxPath) :
    Does (pathparserGetPathPart path) m (fun _ m' => P n m') := by
  have hblock : 1 ≤ maxPath ∧ maxPath ≤ 4096 := by decide
  by_cases hempty : (pathPartLoop path).1 = []
  · -- an empty part is released again
    obtain ⟨u, m', hrun, hroom⟩ := Supply.again h hblock.1 hblock.2
    obtain ⟨p, m1, h1, h2⟩ := bind_eq_ok hrun
    refine ⟨(none, pathRest (pathPartLoop path).2), m', ?_, hroom⟩
    unfold pathparserGetPathPart
    rw [bind_ok h1]
    dsimp only
    rw [onlyIf_neg (not_not_intro hempty), onlyIf_neg (not_lt.mpr hlen), if_pos hempty, pure_bind,
      pure_bind, bind_ok h2]
    rfl
  · refine Does.bind (Supply.one h hblock.1 hblock.2) (fun str m1 h1 => ?_)
    dsimp only
    rw [onlyIf_pos hempty, onlyIf_neg (not_lt.mpr hlen), if_neg hempty]
    refine Does.bind (deref_does h1.1) (fun _ m2 h2 => ?_)
    rw [h2]
    exact ⟨_, m1, rfl, h1.2⟩

/-- the end of the parts -/
theorem pathparserParsePathPart_end (hname : namedPart path = none) (h : P (n + 1) m)
    (hlen : (pathPartLoop path).1.length ≤ maxPath) :
    Does (pathparserParsePathPart path) m (fun r m' => r.1 = none ∧ P n m') := by
  obtain ⟨⟨q, rest⟩, m1, hrun, hroom⟩ := pathparserGetPathPart_room h hlen
  have hq := (pathparserGetPathPart_named hrun).1
  rw [hname, Option.map_eq_none_iff] at hq
  dsimp only at hq
  subst hq
  exact ⟨_, m1, bind_ok hrun, rfl, hroom⟩

/-- a part, and its string -/
theorem pathparserParsePathPart_room {name : List UInt8} (hname : namedPart path = some name)
    (h : P (n + 2) m) (hlen : (pathPartLoop path).1.length ≤ maxPath) :
    Does (pathparserParsePathPart path) m (fun r m' => (∃ part, r.1 = some part) ∧ P n m') := by
  obtain ⟨⟨q, rest⟩, m1, hrun, hroom⟩ := pathparserGetPathPart_room h hlen
  have hq := (pathparserGetPathPart_named hrun).1
  rw [hname] at hq
  obtain ⟨⟨str, part⟩, rfl, -⟩ := Option.map_eq_some_iff.mp hq
  have hstruct : Does (do
      let p ← kzalloc 8
      deref p
      return (some ⟨p, str, part⟩, rest) : Prog Machine (Option PathPart × List UInt8)) m1
      (fun r m' => (∃ part, r.1 = some part) ∧ P n m') := by
    refine Does.bind (Supply.one hroom (by decide) (by decide)) (fun p m2 h2 => ?_)
    refine Does.bind (deref_does h2.1) (fun _ m3 h3 => ?_)
    rw [h3]
    exact Does.pure ⟨⟨_, rfl⟩, h2.2⟩
  obtain ⟨r, m2, hrun2, h2⟩ := hstruct
  exact ⟨r, m2, by rw [pathparserParsePathPart, bind_ok hrun]; exact hrun2, h2⟩

theorem pathRest_length (path : List UInt8) (h : (pathPartLoop path).1 ≠ []) :
    (pathRest (pathPartLoop path).2).length < path.length := by
  have hsplit := congrArg List.length (pathPartLoop_split path).1
  rw [List.length_append] at hsplit
  have hpos := List.length_pos_of_ne_nil h
  have hle : (pathRest (pathPartLoop path).2).length ≤ (pathPartLoop path).2.length := by
    unfold pathRest
    split
    · exact (List.drop_sublist 1 _).length_le
    · exact le_refl _
  omega

/-- **The parts need two blocks each**, and the search for the end one -/
theorem parsePartsLoop_room (fuel : Nat) : ∀ {path : List UInt8} {m : Machine}, path.length < fuel →
    (∀ name ∈ partNames fuel path, name.length ≤ maxPath) →
    P (n + 1 + 2 * (partNames fuel path).length) m →
      Does (parsePartsLoop fuel path) m (fun _ m' => P n m') := by
  induction fuel with
  | zero => exact fun {path m} hlt => absurd hlt (Nat.not_lt_zero _)
  | succ fuel ih =>
    intro path m hlt hlen h
    cases hname : namedPart path with
    | none =>
      have hempty : (pathPartLoop path).1 = [] := by
        unfold namedPart at hname
        by_contra hne
        rw [if_neg hne] at hname
        cases hname
      have hend := pathparserParsePathPart_end hname (Supply.mono h (by omega : n + 1 ≤ _))
        (by rw [hempty]; exact Nat.zero_le _)
      refine Does.bind hend (fun r m1 h1 => ?_)
      obtain ⟨q, rest⟩ := r
      obtain ⟨hq, h1⟩ := h1
      dsimp only at hq
      rw [hq]
      exact Does.pure h1
    | some name =>
      have hpart : (pathPartLoop path).1 = name ∧ (pathPartLoop path).1 ≠ [] := by
        unfold namedPart at hname
        split at hname
        · cases hname
        · exact ⟨Option.some.inj hname, by assumption⟩
      rw [partNames_some fuel hname] at hlen h
      rw [List.length_cons] at h
      have hshort : (pathPartLoop path).1.length ≤ maxPath := by
        rw [hpart.1]
        exact hlen name List.mem_cons_self
      obtain ⟨⟨q, rest⟩, m1, hrun, ⟨part, hq⟩, h1⟩ :=
        pathparserParsePathPart_room hname (n := n + 1 + 2 * _) h hshort
      have hrest := (pathparserParsePathPart_named hrun).2
      dsimp only at hq hrest
      subst hq hrest
      have hlt' := pathRest_length path hpart.2
      obtain ⟨parts, m2, hloop, h2⟩ := ih (by omega)
        (fun name' h' => hlen name' (List.mem_cons_of_mem _ h')) h1
      exact ⟨part :: parts, m2, by rw [parsePartsLoop, bind_ok hrun]; exact bind_ok hloop, h2⟩

/-- the names of an accepted path are shorter than their buffers -/
theorem pathNames_length (hacc : pathAccepted path = true) : ∀ name ∈ pathNames path,
    name.length < maxPath := by
  intro name hname
  rw [pathNames_eq hacc] at hname
  have hpiece := length_piece_le ((List.takeWhile_sublist _).subset hname)
  have hlen : strlen path ≤ maxPath :=
    of_decide_eq_true (Bool.and_eq_true_iff.mp hacc).1
  obtain ⟨d, body, -, -, htext⟩ := pathAccepted_shape hacc
  rw [strlen_eq, htext] at hlen
  rw [htext] at hpiece
  simp only [List.length_cons, List.drop_succ_cons, List.drop_zero] at hlen hpiece
  omega

/-- **With enough blocks an accepted path gets its root** -/
theorem pathparserParse_supply (hacc : pathAccepted path = true)
    (h : P (n + 2 + 2 * (pathNames path).length) m) :
    Does (pathparserParse path) m (fun r m' => (∃ root, r = some root) ∧ P n m') := by
  rw [pathparserParse_accepted hacc]
  refine Does.bind (pathparserCreateRoot_room (n := n + 1 + 2 * (pathNames path).length)
    (Supply.mono h (by omega))) (fun root m1 h1 => ?_)
  have hdrop : (path.drop 3).length < path.length + 1 := by
    rw [List.length_drop]
    omega
  refine Does.bind (parsePartsLoop_room (path.length + 1) hdrop
    (fun name hname => le_of_lt (pathNames_length hacc name hname)) h1.2) (fun parts m2 h2 => ?_)
  exact Does.pure ⟨⟨_, rfl⟩, h2⟩

theorem pathparserParse_room (hacc : pathAccepted path = true)
    (h : Room (n + 2 + 2 * (pathNames path).length) m) :
    Does (pathparserParse path) m (fun r m' => (∃ root, r = some root) ∧ Room n m') :=
  pathparserParse_supply hacc h

end

/-! ## paths that are put together -/

section
variable {d : UInt8} {names : List (List UInt8)} {L : List Run} {m : Machine}

/-- the string ends in its buffer, whose bytes behind the characters are zero -/
def PathPart.Terminated (p : PathPart) : Prop := p.part.length < maxPath ∧ ∀ c ∈ p.part, c ≠ 0

theorem intercalate_ne {names : List (List UInt8)} (h : ∀ n ∈ names, ∀ c ∈ n, c ≠ 0) :
    ∀ c ∈ [47].intercalate names, c ≠ 0 := by
  induction names with
  | nil => simp
  | cons n ns ih =>
    have hn := h n List.mem_cons_self
    have ih := ih (fun k hk => h k (List.mem_cons_of_mem n hk))
    cases ns with
    | nil => simpa using hn
    | cons k ks =>
      rw [List.intercalate_cons_cons]
      intro c hc
      rcases List.mem_append.mp hc with hc | hc
      · rcases List.mem_append.mp hc with hc | hc
        · exact hn c hc
        · rw [List.mem_singleton.mp hc]
          decide
      · exact ih c hc

/-- the parts of a path that is put together, with or without a slash at the end -/
theorem rendered_names (hd : isdigit d = true) (hne : names ≠ [])
    (hnames : ∀ n ∈ names, n ≠ [] ∧ ∀ c ∈ n, c ≠ 47 ∧ c ≠ 0) {tail : List UInt8}
    (htail : tail = [] ∨ tail = [47]) (hlen : (renderPath d names ++ tail).length ≤ maxPath) :
    pathAccepted (renderPath d names ++ tail) = true ∧
      pathNames (renderPath d names ++ tail) = names := by
  have hbody : ∀ c ∈ [47].intercalate names ++ tail, c ≠ 0 := by
    intro c hc
    rcases List.mem_append.mp hc with hc | hc
    · exact intercalate_ne (fun n hn c hc => ((hnames n hn).2 c hc).2) c hc
    · rcases htail with rfl | rfl
      · cases hc
      · rw [List.mem_singleton.mp hc]
        decide
  have hpath : renderPath d names ++ tail = d :: 58 :: 47 :: ([47].intercalate names ++ tail) := rfl
  rw [hpath] at hlen ⊢
  have htext : pathText (d :: 58 :: 47 :: ([47].intercalate names ++ tail))
      = d :: 58 :: 47 :: ([47].intercalate names ++ tail) := by
    rw [pathText_cons (isdigit_ne hd rfl), pathText_cons (by decide), pathText_cons (by decide),
      pathText_self hbody]
  have hacc : pathAccepted (d :: 58 :: 47 :: ([47].intercalate names ++ tail)) = true := by
    unfold pathAccepted
    have hformat : pathparserPathValidFormat (d :: 58 :: 47 :: ([47].intercalate names ++ tail))
        = true := validFormat_iff.mpr ⟨hd, rfl, rfl⟩
    rw [strlen_eq, htext, decide_eq_true hlen, hformat]
    rfl
  refine ⟨hacc, ?_⟩
  rw [pathNames_eq hacc]
  unfold pathPieces
  rw [htext]
  have hfull : ∀ n ∈ names, decide (n ≠ []) = true := fun n hn => decide_eq_true (hnames n hn).1
  have hslash : ∀ n ∈ names, 47 ∉ n := fun n hn h => ((hnames n hn).2 47 h).1 rfl
  show List.takeWhile _ (([47].intercalate names ++ tail).splitOn 47) = names
  rcases htail with rfl | rfl
  · rw [List.append_nil, List.splitOn_intercalate 47 hslash hne]
    exact List.takeWhile_eq_self_iff.mpr hfull
  · rw [List.splitOn_append_cons_self, List.splitOn_intercalate 47 hslash hne,
      List.takeWhile_append_of_pos hfull]
    exact List.append_nil names

/-- **A path is parsed into the components it is put together from**; one that is too long, or does
not start with a drive, gets no root. -/
theorem pathparserParse_rendered :
    (∀ (L : List Run) (m : Machine), m.Holds L → ∀ (d : UInt8), isdigit d = true →
      ∀ (names : List (List UInt8)), names ≠ [] →
      (∀ n ∈ names, n ≠ [] ∧ ∀ c ∈ n, c ≠ 47 ∧ c ≠ 0) →
      ∀ (tail : List UInt8), tail = [] ∨ tail = [47] →
      (renderPath d names ++ tail).length ≤ maxPath →
      2 * names.length + 2 ≤ freeBlocks m.heap.table →
      ∃ root m', pathparserParse (renderPath d names ++ tail) m = .ok (some root, m') ∧
        root.driveNo = (d.toNat : Int) - 48 ∧ root.parts.map PathPart.part = names ∧
        ∀ p ∈ root.parts, p.Terminated) ∧
    ∀ (path : List UInt8) (m : Machine), maxPath < strlen path ∨
      ¬ (isdigit (cstr path 0) = true ∧ cstr path 1 = 58 ∧ cstr path 2 = 47) →
      pathparserParse path m = .ok (none, m) := by
  constructor
  · intro L m hh d hd names hne hnames tail htail hlen hfree
    obtain ⟨hacc, hn⟩ := rendered_names hd hne hnames htail hlen
    have hroom : Room (0 + 2 + 2 * (pathNames (renderPath d names ++ tail)).length) m :=
      ⟨L, hh, by rw [hn]; omega⟩
    obtain ⟨_, m', hrun, ⟨root, rfl⟩, -⟩ := pathparserParse_room hacc hroom
    obtain ⟨-, hdrive, hparts⟩ := pathparserParse_some hrun
    refine ⟨root, m', hrun, hdrive, hparts.trans hn, fun p hp => ?_⟩
    have hmem : p.part ∈ pathNames (renderPath d names ++ tail) := by
      rw [← hparts]
      exact List.mem_map_of_mem hp
    exact ⟨pathNames_length hacc _ hmem, fun c hc => ((hnames _ (hn ▸ hmem)).2 c hc).2⟩
  · intro path m h
    refine pathparserParse_rejected ?_
    unfold pathAccepted
    rcases h with hlong | hformat
    · rw [decide_eq_false (not_le.mpr hlong), Bool.false_and]
    · rw [Bool.eq_false_of_not_eq_true (fun hv => hformat (validFormat_iff.mp hv)), Bool.and_false]

/-- `7:/bin/sh/`, and a path without a drive -/
theorem pathparserParse_rendered_bin : (∃ root m',
    pathparserParse (renderPath 55 [[98, 105, 110], [115, 104]] ++ [47]) emptyMachine
        = .ok (some root, m') ∧
      root.driveNo = (((55 : UInt8).toNat : Nat) : Int) - 48 ∧
      root.parts.map PathPart.part = [[98, 105, 110], [115, 104]] ∧
      ∀ p ∈ root.parts, p.Terminated) ∧
    pathparserParse [98, 105, 110] emptyMachine = .ok (none, emptyMachine) :=
  ⟨pathparserParse_rendered.1 [] emptyMachine emptyMachine_holds 55 (by decide)
      [[98, 105, 110], [115, 104]] (by decide) (by simp) [47] (Or.inr rfl) (by decide)
      (le_trans (show 6 ≤ heapBlocks by decide) emptyMachine_blocks),
    pathparserParse_rendered.2 [98, 105, 110] emptyMachine (Or.inr (by decide))⟩

end

/-! ## paths that are taken apart -/

/-- the digit of a drive -/
def driveDigit (driveNo : Int) : UInt8 := UInt8.ofNat (driveNo + 48).toNat

/-- a parsed path, put together again -/
def PathRoot.render (root : PathRoot) : List UInt8 :=
  renderPath (driveDigit root.driveNo) (root.parts.map PathPart.part)

/-- no empty piece of the path is followed by a full one -/
def NoGap (path : List UInt8) : Prop := (pathPieces path).Pairwise (fun p q => p = [] → q = [])

instance (path : List UInt8) : Decidable (NoGap path) :=
  inferInstanceAs (Decidable (List.Pairwise _ _))

section
variable {path other : List UInt8} {root root' : PathRoot} {m m' m1 m1' : Machine}

theorem noGap_iff (hacc : pathAccepted path = true) :
    NoGap path ↔ pathNames path = pathComponents path := by
  rw [pathNames_eq hacc]
  unfold NoGap
  show _ ↔ (pathPieces path).takeWhile (· ≠ []) = (pathPieces path).filter (· ≠ [])
  rw [takeWhile_eq_filter]
  simp

/-- the names are among the components: full pieces without a slash -/
theorem pathNames_piece (hacc : pathAccepted path = true) : ∀ n ∈ pathNames path, 47 ∉ n ∧ n ≠ [] := by
  intro n hn
  rw [pathNames_eq hacc] at hn
  exact ⟨not_mem_piece ((List.takeWhile_sublist _).subset hn),
    of_decide_eq_true (List.all_eq_true.mp List.all_takeWhile n hn)⟩

/-- a squeezed path is its drive and its components -/
theorem squeeze_path {d : UInt8} (hd : d ≠ 47) (body : List UInt8) :
    squeeze 47 (d :: 58 :: 47 :: body) = [47].intercalate ([d, 58] :: fullPieces 47 body) := by
  have hslash : 47 ∉ [d, 58] := by
    simp [Ne.symm hd]
  exact squeeze_eq _ (List.splitOn_append_cons_self_of_not_mem hslash body)

theorem driveDigit_tonumericdigit {d : UInt8} (hd : isdigit d = true) :
    driveDigit (tonumericdigit d) = d := by
  unfold driveDigit tonumericdigit
  rw [sub_add_cancel, Int.toNat_natCast, UInt8.ofNat_toNat]

/-- **A path comes back up to its slashes** exactly when its parts are its components -/
theorem render_iff (h : pathparserParse path m = .ok (some root, m')) :
    squeeze 47 root.render = squeeze 47 (pathText path) ↔ NoGap path := by
  obtain ⟨hacc, hdrive, hparts⟩ := pathparserParse_some h
  obtain ⟨d, body, hpath, hd, htext⟩ := pathAccepted_shape hacc
  have hne : d ≠ 47 := isdigit_ne hd rfl
  have hslash : 47 ∉ [d, 58] := by
    simp [Ne.symm hne]
  have hdigit : driveDigit root.driveNo = d := by
    rw [hdrive, hpath]
    exact driveDigit_tonumericdigit hd
  have hcomp : pathComponents path = fullPieces 47 (pathText body) := by
    unfold pathComponents
    rw [htext]
    rfl
  unfold PathRoot.render renderPath
  rw [hdigit, hparts, htext, squeeze_path hne, squeeze_path hne,
    fullPieces_intercalate (pathNames_piece hacc), ← hcomp, noGap_iff hacc]
  constructor
  · intro e
    refine (List.cons.inj (intercalate_inj ?_ ?_ (List.cons_ne_nil _ _) (List.cons_ne_nil _ _) e)).2
    · intro n hn
      rcases List.mem_cons.mp hn with rfl | hn
      · exact hslash
      · exact (pathNames_piece hacc n hn).1
    · intro n hn
      rcases List.mem_cons.mp hn with rfl | hn
      · exact hslash
      · exact (not_mem_fullPiece hn).1
  · exact fun e => by rw [e]

/-- **No component is lost** exactly when none follows an empty piece: then the parsed path gives the
path back up to its slashes, and no other path without a gap is parsed to the same root. -/
theorem parse_keeps_parts_iff (h : pathparserParse path m = .ok (some root, m')) :
    (squeeze 47 root.render = squeeze 47 (pathText path) ∧
      ∀ (other : List UInt8) (root' : PathRoot) (m1 m1' : Machine), NoGap other →
        pathparserParse other m1 = .ok (some root', m1') →
        pathComponents other ≠ pathComponents path →
        ¬ (root'.driveNo = root.driveNo ∧
          root'.parts.map PathPart.part = root.parts.map PathPart.part)) ↔ NoGap path := by
  rw [render_iff h]
  refine ⟨fun hkeep => hkeep.1, fun hgap => ⟨hgap, ?_⟩⟩
  intro other root' m1 m1' hgap' h' hne hsame
  obtain ⟨hacc, -, hparts⟩ := pathparserParse_some h
  obtain ⟨hacc', -, hparts'⟩ := pathparserParse_some h'
  apply hne
  rw [← (noGap_iff hacc).mp hgap, ← (noGap_iff hacc').mp hgap', ← hparts, ← hparts', hsame.2]

end

/-- the root of an accepted path on an empty heap -/
theorem emptyMachine_root (path : List UInt8) (hacc : pathAccepted path = true)
    (hn : 2 * (pathNames path).length + 2 ≤ heapBlocks) : ∃ root m',
      pathparserParse path emptyMachine = .ok (some root, m') := by
  have hle := emptyMachine_blocks
  obtain ⟨_, m', hrun, ⟨root, rfl⟩, -⟩ := pathparserParse_room (n := 0) (m := emptyMachine) hacc
    ⟨[], emptyMachine_holds, by omega⟩
  exact ⟨root, m', hrun⟩

/-- `0:/a/b//` comes back -/
theorem parse_keeps_parts_iff_two : ∃ root m',
    pathparserParse [48, 58, 47, 97, 47, 98, 47, 47] emptyMachine = .ok (some root, m') ∧
      ((squeeze 47 root.render = squeeze 47 (pathText [48, 58, 47, 97, 47, 98, 47, 47]) ∧
        ∀ (other : List UInt8) (root' : PathRoot) (m1 m1' : Machine), NoGap other →
          pathparserParse other m1 = .ok (some root', m1') →
          pathComponents other ≠ pathComponents [48, 58, 47, 97, 47, 98, 47, 47] →
          ¬ (root'.driveNo = root.driveNo ∧
            root'.parts.map PathPart.part = root.parts.map PathPart.part)) ↔
        NoGap [48, 58, 47, 97, 47, 98, 47, 47]) := by
  obtain ⟨root, m', hrun⟩ := emptyMachine_root [48, 58, 47, 97, 47, 98, 47, 47]
    (by decide) (by decide)
  exact ⟨root, m', hrun, parse_keeps_parts_iff hrun⟩

/-- `0:/a//b` is parsed as `0:/a` -/
theorem double_slash_drops : ∃ root root' m1 m1',
    pathparserParse [48, 58, 47, 97, 47, 47, 98] emptyMachine = .ok (some root, m1) ∧
      pathparserParse [48, 58, 47, 97] emptyMachine = .ok (some root', m1') ∧
      squeeze 47 root.render ≠ squeeze 47 (pathText [48, 58, 47, 97, 47, 47, 98]) ∧
      pathComponents [48, 58, 47, 97, 47, 47, 98] = [[97], [98]] ∧
      pathComponents [48, 58, 47, 97] = [[97]] ∧
      root.driveNo = root'.driveNo ∧
      root.parts.map PathPart.part = root'.parts.map PathPart.part := by
  obtain ⟨root, m1, hrun⟩ := emptyMachine_root [48, 58, 47, 97, 47, 47, 98]
    (by decide) (by decide)
  obtain ⟨root', m1', hrun'⟩ := emptyMachine_root [48, 58, 47, 97] (by decide) (by decide)
  obtain ⟨-, hd, hp⟩ := pathparserParse_some hrun
  obtain ⟨-, hd', hp'⟩ := pathparserParse_some hrun'
  have hgap : ¬ NoGap [48, 58, 47, 97, 47, 47, 98] := by decide
  exact ⟨root, root', m1, m1', hrun, hrun', fun e => hgap ((render_iff hrun).mp e), by decide,
    by decide, hd.trans hd'.symm, hp.trans ((by decide : pathNames [48, 58, 47, 97, 47, 47, 98]
      = pathNames [48, 58, 47, 97]).trans hp'.symm)⟩

/-! ## release -/

/-- what `pathparser_free` frees, in its order -/
def rootFrees (root : PathRoot) : List Nat :=
  root.parts.flatMap (fun part => [part.str, part.addr]) ++ [root.addr]

theorem freePartsLoop_eq (parts : List PathPart) :
    freePartsLoop parts = forM (parts.flatMap (fun part => [part.str, part.addr])) kfree := by
  induction parts with
  | nil => rfl
  | cons part parts ih =>
    rw [freePartsLoop, ih]
    rfl

theorem pathparserFree_eq (root : PathRoot) : pathparserFree root = forM (rootFrees root) kfree := by
  unfold pathparserFree rootFrees
  rw [freePartsLoop_eq, List.forM_append, List.forM_cons, List.forM_nil, bind_pure_unit]

theorem rootFrees_perm (root : PathRoot) : (rootPtrs root).Perm (rootFrees root) := by
  unfold rootPtrs rootFrees
  refine (List.perm_append_singleton _ _).symm.trans (List.Perm.append_right _ ?_)
  induction root.parts with
  | nil => exact List.Perm.refl _
  | cons part parts ih =>
    exact List.Perm.append (List.Perm.swap part.str part.addr []) ih

section
variable {L N : List Run} {ps : List Nat} {m : Machine}

/-- the pointers of allocations are apart -/
theorem Points.nodup (h : m.Holds (N ++ L)) (hp : Points ps N) : ps.Nodup := by
  have hsep := (List.pairwise_append.mp h.tiled.separate).1
  refine hp.nodup_iff.mp (List.pairwise_map.mpr (hsep.imp_of_mem (fun {r r'} hr hr' hapart e => ?_)))
  have hpos := h.tiled.pos r (List.mem_append_left L hr)
  have hpos' := h.tiled.pos r' (List.mem_append_left L hr')
  have hstart : r.start = r'.start := blockAddr_inj e
  exact hapart r.start ⟨le_refl _, (by omega : r.start < r.start + r.len)⟩
    ⟨hstart.ge, (by omega : r.start < r'.start + r'.len)⟩

/-- every pointer is freed -/
theorem kfree_all (ps : List Nat) : ∀ {N : List Run} {m : Machine}, m.Holds (N ++ L) → Points ps N →
    ∃ m', forM ps kfree m = .ok ((), m') ∧ m'.Holds L := by
  induction ps with
  | nil =>
    intro N m h hp
    obtain rfl := hp.eq_nil
    exact ⟨m, rfl, h⟩
  | cons p ps ih =>
    intro N m h hp
    obtain ⟨m1, N', hk, hps, hh, -⟩ := kfree_points h hp
    obtain ⟨m2, hrest, hh2⟩ := ih hh hps
    exact ⟨m2, by rw [List.forM_cons, bind_ok hk, hrest], hh2⟩

/-- **A path is parsed and released.**  Without a root the heap is as before; with one, its release
frees every block of it once, and then the heap is as before the parse. -/
theorem parse_then_free (h : m.Holds L) (path : List UInt8)
    (hfree : pathAccepted path = true → 2 * (pathNames path).length + 2 ≤ freeBlocks m.heap.table) :
    ∃ r m', pathparserParse path m = .ok (r, m') ∧ (r = none → SameHeap m m') ∧
      ∀ root, r = some root → pathparserFree root = forM (rootFrees root) kfree ∧
        (rootFrees root).Nodup ∧
        ∃ m'', pathparserFree root m' = .ok ((), m'') ∧ SameHeap m m'' := by
  cases hacc : pathAccepted path with
  | false =>
    exact ⟨none, m, pathparserParse_rejected hacc, fun _ => SameHeap.refl m, fun _ e => by cases e⟩
  | true =>
    have hblocks := hfree hacc
    have hroom : Room (0 + 2 + 2 * (pathNames path).length) m := ⟨L, h, by omega⟩
    obtain ⟨_, m', hrun, ⟨root, rfl⟩, -⟩ := pathparserParse_room hacc hroom
    obtain ⟨N, ⟨hpoints, -⟩, hh, -⟩ := pathparserParse_owns path m L (some root) m' h hrun
    have hptrs : Points (rootFrees root) N := hpoints.perm (rootFrees_perm root)
    obtain ⟨m'', hall, hh''⟩ := kfree_all (rootFrees root) hh hptrs
    refine ⟨some root, m', hrun, (fun e => by cases e), fun root' e => ?_⟩
    obtain rfl := Option.some.inj e
    exact ⟨pathparserFree_eq root, hptrs.nodup hh, m'', by rw [pathparserFree_eq]; exact hall,
      h.same hh''⟩

/-- `0:/a/b` on an empty heap -/
theorem parse_then_free_two : ∃ r m',
    pathparserParse (renderPath 48 [[97], [98]]) emptyMachine = .ok (r, m') ∧
      (r = none → SameHeap emptyMachine m') ∧
      ∀ root, r = some root → pathparserFree root = forM (rootFrees root) kfree ∧
        (rootFrees root).Nodup ∧
        ∃ m'', pathparserFree root m' = .ok ((), m'') ∧ SameHeap emptyMachine m'' :=
  parse_then_free emptyMachine_holds (renderPath 48 [[97], [98]])
    (fun _ => le_trans (show _ ≤ heapBlocks by decide) emptyMachine_blocks)

end

end LameOS
