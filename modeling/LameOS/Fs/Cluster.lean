import LameOS.Fs.Fat16

/-!
# Cluster chains

* `clusterLoop_run`, `clusterLoop_stop`   the walk over any table: all the way, or up to the first
                          entry that ends it;
* `FollowsChain`          what the walk owes to a table of 16-bit entries;
* `cluster_for_offset_iff`   on which tables it does.
-/

set_option linter.unusedVariables false

namespace LameOS
open Lib Lib.Exec

/-! ## the walk -/

/-- the entry of a table as the `int` the code has -/
def entryInt (F : Int → UInt16) (c : Int) : Int := ((F c).toNat : Int)

/-- the entry reached from `c` in `i` steps -/
def walk (F : Int → UInt16) (i : Nat) (c : Int) : Int := (entryInt F)^[i] c

theorem walk_succ (F : Int → UInt16) (i : Nat) (c : Int) :
    walk F (i + 1) c = walk F i (entryInt F c) := Function.iterate_succ_apply _ _ _

/-- the lookup in the table `F`; it keeps the clusters that it is asked for -/
def loggedEntry (F : Int → UInt16) (c : Int) : Prog (List Int) Int := do
  modify (fun log => log ++ [c])
  return entryInt F c

/-- the values the code compares an entry with, zero apart -/
def ShortMarker (x : Int) : Prop := x = 0xFF8 ∨ x = 0xFFF ∨ x = 0xFF7 ∨ x = 0xFF0 ∨ x = 0xFF6

/-- the entries that end the walk -/
def Stops (x : Int) : Prop := ShortMarker x ∨ x = 0

/-- the entries of a FAT16 table that are no cluster: free, reserved, bad, end of chain -/
def Marker (x : Int) : Prop := x = 0 ∨ 0xFFF0 ≤ x ∧ x ≤ 0xFFFF

instance (x : Int) : Decidable (ShortMarker x) := inferInstanceAs (Decidable (_ ∨ _))
instance (x : Int) : Decidable (Stops x) := inferInstanceAs (Decidable (_ ∨ _))
instance (x : Int) : Decidable (Marker x) := inferInstanceAs (Decidable (_ ∨ _))

/-- a lookup that does not end the walk -/
theorem clusterLoop_step {σ : Type} {getFatEntry : Int → Prog σ Int} {c entry : Int} {s s' : σ}
    (hrun : getFatEntry c s = .ok (entry, s')) (h : ¬ Stops entry) (k : Nat) :
    clusterLoop getFatEntry (k + 1) c s = clusterLoop getFatEntry k entry s' := by
  obtain ⟨h1, h0⟩ := not_or.mp h
  unfold ShortMarker at h1
  have hloop : clusterLoop getFatEntry (k + 1) c = (getFatEntry c >>= fun entry =>
      if entry = 0xFF8 ∨ entry = 0xFFF then return - EIO
      else if entry = 0xFF7 then return - EIO
      else if entry = 0xFF0 ∨ entry = 0xFF6 then return - EIO
      else if entry = 0x00 then return - EIO
      else clusterLoop getFatEntry k entry) := rfl
  rw [hloop, bind_ok hrun, if_neg (by omega), if_neg (by omega), if_neg (by omega), if_neg h0]

section
variable (F : Int → UInt16)

theorem clusterLoop_next {c : Int} (h : ¬ Stops (entryInt F c)) (k : Nat) (log : List Int) :
    clusterLoop (loggedEntry F) (k + 1) c log
      = clusterLoop (loggedEntry F) k (entryInt F c) (log ++ [c]) :=
  clusterLoop_step rfl h k

theorem clusterLoop_end {c : Int} (h : Stops (entryInt F c)) (k : Nat) (log : List Int) :
    clusterLoop (loggedEntry F) (k + 1) c log = .ok (- EIO, log ++ [c]) := by
  show (if entryInt F c = 0xFF8 ∨ entryInt F c = 0xFFF then _ else _ : Prog (List Int) Int)
    (log ++ [c]) = _
  split
  · rfl
  · split
    · rfl
    · split
      · rfl
      · split
        · rfl
        · exfalso
          unfold Stops ShortMarker at h
          omega

/-- no entry on the way ends the walk -/
theorem clusterLoop_run (k : Nat) : ∀ (c : Int) (log : List Int),
    (∀ i < k, ¬ Stops (walk F (i + 1) c)) →
      clusterLoop (loggedEntry F) k c log
        = .ok (walk F k c, log ++ (List.range k).map (fun i => walk F i c)) := by
  induction k with
  | zero =>
    intro c log h
    rw [List.range_zero, List.map_nil, List.append_nil]
    rfl
  | succ k ih =>
    intro c log h
    rw [clusterLoop_next F (h 0 (Nat.succ_pos k)) k log,
      ih _ _ (fun i hi => by rw [← walk_succ]; exact h (i + 1) (by omega)), walk_succ,
      List.range_succ_eq_map, List.map_cons, List.map_map, List.append_assoc]
    rfl

/-- the first entry that ends the walk -/
theorem clusterLoop_stop (k : Nat) : ∀ (i : Nat) (c : Int) (log : List Int), i < k →
    Stops (walk F (i + 1) c) → (∀ j < i, ¬ Stops (walk F (j + 1) c)) →
      clusterLoop (loggedEntry F) k c log
        = .ok (- EIO, log ++ (List.range (i + 1)).map (fun j => walk F j c)) := by
  induction k with
  | zero =>
    intro i c log hi
    omega
  | succ k ih =>
    intro i c log hi hstop hlt
    cases i with
    | zero => exact clusterLoop_end F hstop k log
    | succ i =>
      rw [clusterLoop_next F (hlt 0 (Nat.succ_pos i)) k log,
        ih i _ _ (by omega) (by rw [← walk_succ]; exact hstop)
          (fun j hj => by rw [← walk_succ]; exact hlt (j + 1) (by omega)),
        List.range_succ_eq_map (n := i + 1), List.map_cons, List.map_map, List.append_assoc]
      rfl

/-- the walk ends at some step, or it does not -/
theorem first_stop (k : Nat) (c : Int) : (∀ i < k, ¬ Stops (walk F (i + 1) c)) ∨
    ∃ i < k, Stops (walk F (i + 1) c) ∧ ∀ j < i, ¬ Stops (walk F (j + 1) c) := by
  by_cases h : ∃ i, i < k ∧ Stops (walk F (i + 1) c)
  · right
    have hs := Nat.find_spec h
    refine ⟨Nat.find h, hs.1, hs.2, fun j hj hst => ?_⟩
    exact Nat.find_min h hj ⟨by omega, hst⟩
  · left
    intro i hi hst
    exact h ⟨i, hi, hst⟩

end

/-! ## what the walk owes -/

/-- the outcome of the walk over `k` entries from `c`: the cluster reached when no entry is a marker,
a negative status when one is, and a marker neither followed nor returned -/
structure FollowsChain (F : Int → UInt16) (k : Nat) (c : Int) (res : Int) (asked : List Int) : Prop where
  reached : (∀ i < k, ¬ Marker (walk F (i + 1) c)) → res = walk F k c
  refused : (∃ i < k, Marker (walk F (i + 1) c)) → res < 0
  followed : ∀ i, (hi : i + 1 < asked.length) → ¬ Marker (asked.getD (i + 1) 0)
  returned : 0 < k → ¬ Marker res

/-- the entries that the code meets are read as FAT16 has them: none that it goes on from is in
`0xFFF0 .. 0xFFFF`, and a 12-bit value is met first only on a chain that has a marker -/
structure PlainEntries (F : Int → UInt16) (k : Nat) (c : Int) : Prop where
  long : ∀ i < k, (∀ j < i, ¬ Stops (walk F (j + 1) c)) → walk F (i + 1) c < 0xFFF0
  short : ∀ i < k, ShortMarker (walk F (i + 1) c) → (∀ j < i, ¬ Stops (walk F (j + 1) c)) →
    ∃ l < k, Marker (walk F (l + 1) c)

theorem walk_range (F : Int → UInt16) (i : Nat) (c : Int) :
    0 ≤ walk F (i + 1) c ∧ walk F (i + 1) c ≤ 0xFFFF := by
  have h : walk F (i + 1) c = entryInt F (walk F i c) := Function.iterate_succ_apply' _ _ _
  have hlt := (F (walk F i c)).toNat_lt
  rw [h]
  unfold entryInt
  omega

/-- an entry that does not end the walk is a marker when it is a long one -/
theorem marker_of_long {F : Int → UInt16} {i : Nat} {c : Int} (h : 0xFFF0 ≤ walk F (i + 1) c) :
    Marker (walk F (i + 1) c) := Or.inr ⟨h, (walk_range F i c).2⟩

theorem not_marker {F : Int → UInt16} {i : Nat} {c : Int} (h0 : ¬ Stops (walk F (i + 1) c))
    (h : walk F (i + 1) c < 0xFFF0) : ¬ Marker (walk F (i + 1) c) := by
  rintro (h1 | h1)
  · exact h0 (Or.inr h1)
  · omega

/-- the entry at place `i + 1` of the clusters asked for -/
theorem asked_getD (F : Int → UInt16) (c : Int) {n i : Nat} (h : i < n) :
    ((List.range n).map (fun j => walk F j c)).getD i 0 = walk F i c := by
  have hlt : i < ((List.range n).map (fun j => walk F j c)).length := by simpa using h
  rw [List.getD_eq_getElem _ _ hlt]
  simp

section
variable (F : Int → UInt16) (k : Nat) (c : Int)

/-- the walk over all entries -/
theorem followsChain_run (h : ∀ i < k, ¬ Stops (walk F (i + 1) c)) :
    FollowsChain F k c (walk F k c) ((List.range k).map (fun i => walk F i c))
      ↔ PlainEntries F k c := by
  constructor
  · intro hf
    refine ⟨fun i hi _ => ?_, fun i hi hs _ => absurd (Or.inl hs) (h i hi)⟩
    by_contra hlong
    have hm : Marker (walk F (i + 1) c) := marker_of_long (by omega)
    rcases Nat.lt_or_ge (i + 1) k with hlt | hge
    · have hnot := hf.followed i (by simpa using hlt)
      rw [asked_getD F c hlt] at hnot
      exact hnot hm
    · obtain rfl : i + 1 = k := by omega
      exact hf.returned (Nat.succ_pos i) hm
  · intro hp
    have hno : ∀ i < k, ¬ Marker (walk F (i + 1) c) := fun i hi =>
      not_marker (h i hi) (hp.long i hi (fun j hj => h j (by omega)))
    refine ⟨fun _ => rfl, fun ⟨i, hi, hm⟩ => absurd hm (hno i hi), fun i hi => ?_, fun hk => ?_⟩
    · have hi' : i + 1 < k := by simpa using hi
      rw [asked_getD F c hi']
      exact hno i (by omega)
    · obtain ⟨i, rfl⟩ := Nat.exists_eq_succ_of_ne_zero (Nat.pos_iff_ne_zero.mp hk)
      exact hno i (Nat.lt_succ_self i)

/-- the walk up to an entry that ends it -/
theorem followsChain_stop {i : Nat} (hi : i < k) (hstop : Stops (walk F (i + 1) c))
    (hlt : ∀ j < i, ¬ Stops (walk F (j + 1) c)) :
    FollowsChain F k c (- EIO) ((List.range (i + 1)).map (fun j => walk F j c))
      ↔ PlainEntries F k c := by
  have hlow : walk F (i + 1) c < 0xFFF0 := by
    unfold Stops ShortMarker at hstop
    omega
  constructor
  · intro hf
    refine ⟨fun l hl hbefore => ?_, fun l hl hs hbefore => ?_⟩
    · rcases Nat.lt_trichotomy l i with hli | rfl | hgt
      · by_contra hlong
        have hnot := hf.followed l (by simpa using hli)
        rw [asked_getD F c (by omega)] at hnot
        exact hnot (marker_of_long (by omega))
      · exact hlow
      · exact absurd hstop (hbefore i hgt)
    · by_contra hno
      have hr := hf.reached (fun j hj hm => hno ⟨j, hj, hm⟩)
      obtain ⟨n, rfl⟩ := Nat.exists_eq_succ_of_ne_zero (by omega : k ≠ 0)
      have h0 := (walk_range F n c).1
      rw [← hr] at h0
      exact absurd h0 (by decide)
  · intro hp
    refine ⟨fun hno => ?_, fun _ => by decide, fun l hl => ?_, fun _ => by decide⟩
    · exfalso
      rcases hstop with hs | h0
      · obtain ⟨l, hl, hm⟩ := hp.short i hi hs hlt
        exact hno l hl hm
      · exact hno i hi (Or.inl h0)
    · have hl' : l < i := by simpa using hl
      rw [asked_getD F c (by omega)]
      exact not_marker (hlt l hl') (hp.long l (by omega) (fun j hj => hlt j (by omega)))

end

/-- **The walk over a table.**  `fat16_get_cluster_for_offset` follows a chain as FAT16 has it
exactly when no entry that it goes on from is one of the values `0xFFF0 .. 0xFFFF` and it meets one
of its 12-bit values only on a chain that is broken off anyway. -/
theorem cluster_for_offset_iff (F : Int → UInt16) {size : Int} (hsize : size ≠ 0) (c offset : Int) :
    (∃ res asked, clusterForOffset (loggedEntry F) size c offset [] = .ok (res, asked) ∧
        FollowsChain F (offset.tdiv size).toNat c res asked)
      ↔ PlainEntries F (offset.tdiv size).toNat c := by
  unfold clusterForOffset
  rw [if_neg hsize]
  generalize (offset.tdiv size).toNat = k
  have hiff : ∀ r a, clusterLoop (loggedEntry F) k c [] = .ok (r, a) →
      ((∃ res asked, clusterLoop (loggedEntry F) k c [] = .ok (res, asked) ∧
        FollowsChain F k c res asked) ↔ FollowsChain F k c r a) := by
    intro r a hrun
    constructor
    · rintro ⟨res, asked, h, hf⟩
      rw [hrun] at h
      obtain ⟨rfl, rfl⟩ := ok_inj h
      exact hf
    · intro hf
      exact ⟨r, a, hrun, hf⟩
  rcases first_stop F k c with h | ⟨i, hi, hstop, hlt⟩
  · rw [hiff _ _ (clusterLoop_run F k c [] h), List.nil_append]
    exact followsChain_run F k c h
  · rw [hiff _ _ (clusterLoop_stop F k i c [] hi hstop hlt), List.nil_append]
    exact followsChain_stop F k c hi hstop hlt

/-- the chain 2, 3, 5 with its end marker, 512 bytes a cluster, read in its third cluster -/
theorem cluster_for_offset_iff_chain :
    ∃ res asked, clusterForOffset (loggedEntry (fun c => if c = 2 then 3 else if c = 3 then 5
        else 0xFFFF)) 512 2 1100 [] = .ok (res, asked) ∧
      FollowsChain (fun c => if c = 2 then 3 else if c = 3 then 5 else 0xFFFF) 2 2 res asked := by
  refine (cluster_for_offset_iff _ (by decide) 2 1100).mpr ⟨fun i hi _ => ?_, fun i hi hs _ => ?_⟩
  · have hi' : i < 2 := hi
    interval_cases i <;> decide
  · have hi' : i < 2 := hi
    interval_cases i <;> exact absurd hs (by decide)

/-- past the end marker of a chain of one cluster: the marker comes back as a cluster -/
theorem cluster_for_offset_marker :
    ¬ ∃ res asked, clusterForOffset (loggedEntry (fun _ => 0xFFFF)) 512 2 512 [] = .ok (res, asked) ∧
      FollowsChain (fun _ => 0xFFFF) 1 2 res asked := by
  rintro ⟨res, asked, hrun, hf⟩
  have h : clusterForOffset (loggedEntry (fun _ => 0xFFFF)) 512 2 512 [] = .ok (0xFFFF, [2]) := rfl
  rw [h] at hrun
  obtain ⟨rfl, rfl⟩ := ok_inj hrun
  exact hf.returned Nat.one_pos (by decide)

end LameOS
