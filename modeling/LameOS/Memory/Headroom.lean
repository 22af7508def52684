import LameOS.Memory.Owns

/-!
# The blocks at the end of the heap

First fit takes the lowest window, so what lies behind all allocations stays free, and a request of
several blocks can count on it.

* `FreeFrom k m`           block `k` and all behind it are free;
* `Raises mach c x`        a program that moves this mark by `c` blocks at most;
* `kzalloc_raises`, `kfree_raises`, `pagingNew4gb_raises`   the programs of the heap;
* `Headroom n m`           the heap is in order, and its last `n` blocks are free;
* `kzalloc_headroom`       then a request is granted.
-/

set_option linter.unusedVariables false

namespace LameOS
open Lib Lib.Exec

/-- the kernel's heap is free from block `k` on -/
structure FreeFrom (k : Nat) (m : Machine) : Prop where
  saddr : m.heap.saddr = heapAddress
  total : m.heap.table.total = heapBlocks
  free : ∀ i < heapBlocks, k ≤ i → Free m.heap.table i

section
variable {k n c d : Nat} {m m' : Machine}

theorem FreeFrom.mono (h : FreeFrom k m) {k' : Nat} (hk : k ≤ k') : FreeFrom k' m :=
  ⟨h.saddr, h.total, fun i hi hle => h.free i hi (hk.trans hle)⟩

theorem FreeFrom.congr (h : FreeFrom k m) (e : m'.heap = m.heap) : FreeFrom k m' := by
  obtain ⟨h1, h2, h3⟩ := h
  rw [← e] at h1 h2 h3
  exact ⟨h1, h2, h3⟩

/-- the blocks behind the mark are a window -/
theorem FreeFrom.window (h : FreeFrom k m) (hn : k + n ≤ heapBlocks) : Window m.heap.table n k :=
  ⟨by rw [h.total]; exact hn, fun i h1 h2 => h.free i (by omega) h1⟩

/-- so first fit takes no window behind it -/
theorem FreeFrom.first (h : FreeFrom k m) (hn : k + n ≤ heapBlocks) {b : Nat}
    (hw : FirstWindow m.heap.table n b) : b ≤ k := by
  by_contra hlt
  exact hw.2 k (Nat.lt_of_not_le hlt) (h.window hn)

theorem FreeFrom.mark (h : FreeFrom k m) {b : Nat} (hw : FirstWindow m.heap.table n b) (size : Nat) :
    FreeFrom (k + n) (m.alloc ⟨b, n⟩ size) := by
  refine ⟨h.saddr, h.total, fun i hi hle => ?_⟩
  have hb := h.first (by omega) hw
  have hout : (m.heap.table.mark ⟨b, n⟩).entries i = m.heap.table.entries i :=
    HeapTable.put_out _ _ (Or.inr (by show b + n ≤ i; omega))
  unfold Free
  show heapGetEntryType ((m.heap.table.mark ⟨b, n⟩).entries i) = entryFree
  rw [hout]
  exact h.free i hi (by omega)

end

/-! ## programs -/

/-- wherever `x` returns, the heap is free from `c` blocks further on -/
def Raises {σ α : Type} (mach : σ → Machine) (c : Nat) (x : Prog σ α) : Prop :=
  ∀ k s a s', FreeFrom k (mach s) → x s = .ok (a, s') → FreeFrom (k + c) (mach s')

namespace Raises
variable {σ τ α β : Type} {mach : σ → Machine} {c d : Nat} {x y : Prog σ α} {f : α → Prog σ β}

theorem mono (h : Raises mach c x) (hle : c ≤ d) : Raises mach d x := fun k s a s' hk hrun =>
  (h k s a s' hk hrun).mono (Nat.add_le_add_left hle k)

theorem pure (a : α) : Raises mach 0 (pure a : Prog σ α) := by
  intro k s b s' hk hrun
  obtain ⟨-, rfl⟩ := pure_eq_ok hrun
  exact hk

theorem throw (e : Fault) : Raises mach 0 (throw e : Prog σ α) := by
  intro k s a s' hk hrun
  cases hrun

theorem bind (hx : Raises mach c x) (hf : ∀ a, Raises mach d (f a)) :
    Raises mach (c + d) (x >>= f) := by
  intro k s b s'' hk hrun
  obtain ⟨a, s', h1, h2⟩ := bind_eq_ok hrun
  rw [← Nat.add_assoc]
  exact hf a _ s' b s'' (hx k s a s' hk h1) h2

/-- with a first step that takes nothing -/
theorem after (hx : Raises mach 0 x) (hf : ∀ a, Raises mach d (f a)) : Raises mach d (x >>= f) :=
  (hx.bind hf).mono (Nat.zero_add d).le

theorem ite {p : Prop} [Decidable p] (hx : p → Raises mach c x) (hy : ¬ p → Raises mach c y) :
    Raises mach c (if p then x else y) := by
  by_cases h : p
  · rw [if_pos h]
    exact hx h
  · rw [if_neg h]
    exact hy h

/-- a program that leaves the heap alone -/
theorem still (h : ∀ s a s', x s = .ok (a, s') → (mach s').heap = (mach s).heap) :
    Raises mach 0 x := fun k s a s' hk hrun => hk.congr (h s a s' hrun)

theorem get : Raises mach 0 (get : Prog σ σ) := still (fun s a s' h => by cases h; rfl)

theorem modify {f : σ → σ} (h : ∀ s, (mach (f s)).heap = (mach s).heap) :
    Raises mach 0 (modify f : Prog σ PUnit) := still (fun s a s' h' => by cases h'; exact h s)

/-- a program over a part of the state that has the machine -/
theorem part {machT : τ → Machine} {get : σ → τ} {put : τ → σ → σ} {z : Prog τ α}
    (hz : Raises machT c z) (hget : ∀ s, machT (get s) = mach s)
    (hput : ∀ t s, mach (put t s) = machT t) : Raises mach c (Exec.part get put z) := by
  intro k s a s' hk hrun
  obtain ⟨t, h1, rfl⟩ := part_eq_ok hrun
  rw [hput]
  exact hz k _ a t (by rw [hget]; exact hk) h1

end Raises

section
variable {k n c : Nat} {m m' : Machine}

/-- a request -/
theorem kzalloc_raises {size : Nat} (hsize : size < 4294967296) :
    Raises itself (mallocBlocks size) (kzalloc size) := by
  intro k m p m' hk hrun
  rcases kzalloc_window_cases hk.saddr hk.total hsize hrun with ⟨b, hw, -, -, rfl⟩ | ⟨-, -, rfl⟩ | ⟨-, hsame⟩
  · exact hk.mark hw size
  · exact hk.mono (Nat.le_add_right k _)
  · exact (hk.congr hsame).mono (Nat.le_add_right k _)

theorem kzalloc_raises_one {size : Nat} (h1 : 1 ≤ size) (h2 : size ≤ 4096) :
    Raises itself 1 (kzalloc size) := by
  have h := kzalloc_raises (show size < 4294967296 by omega)
  rwa [mallocBlocks_one h1 h2] at h

/-- a release frees blocks, whatever the pointer is -/
theorem markFreeLoop_free (fuel : Nat) : ∀ {j : Int} {t t' : HeapTable},
    markFreeLoop fuel j t = .ok t' → t'.total = t.total ∧ ∀ i, Free t i → Free t' i := by
  induction fuel with
  | zero =>
    intro j t t' hrun
    cases hrun
    exact ⟨rfl, fun i h => h⟩
  | succ fuel ih =>
    intro j t t' hrun
    unfold markFreeLoop HeapTable.load HeapTable.store at hrun
    by_cases hj : 0 ≤ j ∧ j < t.total
    · rw [if_pos hj, if_pos hj] at hrun
      have hput : ∀ i, Free t i →
          Free { t with entries := Function.update t.entries j.toNat entryFree } i := by
        intro i hi
        unfold Free
        show heapGetEntryType (Function.update t.entries j.toNat entryFree i) = entryFree
        by_cases e : i = j.toNat
        · rw [e, Function.update_self]
          rfl
        · rw [Function.update_of_ne e]
          exact hi
      change (if t.entries j.toNat &&& blockHasNext = 0 then _ else _) = _ at hrun
      split at hrun
      · cases hrun
        exact ⟨rfl, hput⟩
      · obtain ⟨htotal, hfree⟩ := ih hrun
        exact ⟨htotal, fun i hi => hfree i (hput i hi)⟩
    · rw [if_neg hj] at hrun
      cases hrun

theorem kfree_raises (p : Nat) : Raises itself 0 (kfree p) := by
  intro k m u m' hk hrun
  unfold kfree at hrun
  cases hf : heapFree m.heap p with
  | error e =>
    rw [hf] at hrun
    cases hrun
  | ok h =>
    rw [hf] at hrun
    cases hrun
    unfold heapFree heapMarkBlocksFree at hf
    cases hloop : markFreeLoop (cint m.heap.table.total - heapAddressToBlock m.heap p).toNat
        (heapAddressToBlock m.heap p) m.heap.table with
    | error e =>
      rw [hloop] at hf
      cases hf
    | ok t =>
      rw [hloop] at hf
      cases hf
      obtain ⟨htotal, hfree⟩ := markFreeLoop_free _ hloop
      exact ⟨hk.saddr, htotal.trans hk.total, fun i hi hle => hfree i (hk.free i hi hle)⟩

theorem writeWord_raises (p off v : Nat) : Raises itself 0 (writeWord p off v) :=
  Raises.still (fun m u m' hrun => by
    unfold writeWord at hrun
    split at hrun
    · cases hrun
    · cases hrun
      rfl)

/-! ## a chunk of pages -/

theorem pagingTableLoop_raises (entry flags : Nat) (offset : Int) (fuel : Nat) : ∀ b,
    Raises itself 0 (pagingTableLoop entry flags offset fuel b) := by
  induction fuel with
  | zero => exact fun b => Raises.pure ()
  | succ fuel ih =>
    intro b
    unfold pagingTableLoop
    exact (writeWord_raises _ _ _).bind (fun _ => ih (b + 1))

theorem pagingDirectoryLoop_raises (directory flags fuel : Nat) : ∀ i offset,
    Raises itself fuel (pagingDirectoryLoop directory flags fuel i offset) := by
  induction fuel with
  | zero => exact fun i offset => Raises.pure ()
  | succ fuel ih =>
    intro i offset
    unfold pagingDirectoryLoop
    have hentry : Raises itself 1 (kzalloc (4 * pagingTotalEntriesPerTable)) :=
      kzalloc_raises_one (by decide) (by decide)
    have h := hentry.bind
      (fun entry => (pagingTableLoop_raises entry flags offset pagingTotalEntriesPerTable 0).bind
        (fun _ => (writeWord_raises directory (4 * i) (entry ||| flags ||| pagingIsWriteable)).bind
          (fun _ => ih (i + 1) (cint (offset + pagingTotalEntriesPerTable * pagingPageSize)))))
    exact h.mono (by omega)

theorem pagingNew4gb_raises (flags : Nat) : Raises itself 1026 (pagingNew4gb flags) := by
  unfold pagingNew4gb
  have hdirectory : Raises itself 1 (kzalloc (4 * pagingTotalEntriesPerTable)) :=
    kzalloc_raises_one (by decide) (by decide)
  have hchunk : Raises itself 1 (kzalloc 4) := kzalloc_raises_one (by decide) (by decide)
  have h := hdirectory.bind
    (fun directory => (pagingDirectoryLoop_raises directory flags pagingTotalEntriesPerTable 0 0).bind
      (fun _ => hchunk.bind
        (fun chunk => (writeWord_raises chunk 0 directory).bind (fun _ => Raises.pure chunk))))
  exact h.mono (by decide)

/-! ## the room behind the mark -/

/-- the heap is in order, and its last `n` blocks are free -/
def Headroom (n : Nat) (m : Machine) : Prop := ∃ k L, m.Holds L ∧ FreeFrom k m ∧ k + n ≤ heapBlocks

theorem Headroom.mono (h : Headroom n m) {n' : Nat} (hn : n' ≤ n) : Headroom n' m := by
  obtain ⟨k, L, hh, hk, hle⟩ := h
  exact ⟨k, L, hh, hk, by omega⟩

theorem Headroom.congr (h : Headroom n m) (e : m'.heap = m.heap) : Headroom n m' := by
  obtain ⟨k, L, hh, hk, hle⟩ := h
  exact ⟨k, L, hh.congr e, hk.congr e, hle⟩

/-- **A request of any size is granted** when the blocks at the end are enough. -/
theorem kzalloc_headroom {size : Nat} (h : Headroom (n + mallocBlocks size) m)
    (hpos : 1 ≤ mallocBlocks size) (hsize : size < 4294967296) :
    Does (kzalloc size) m (fun p m' => p ≠ 0 ∧ Headroom n m') := by
  obtain ⟨k, L, hh, hk, hle⟩ := h
  obtain ⟨b, hw⟩ : ∃ b, FirstWindow m.heap.table (mallocBlocks size) b := by
    rcases firstWindow_or_not m.heap.table (mallocBlocks size) with hw | hno
    · exact hw
    · exact absurd (hk.window (by omega)) (hno k)
  exact ⟨_, _, kzalloc_found hh hsize hpos hw, blockAddr_ne, _, _, hh.alloc hpos hw.1 size,
    hk.mark hw size, by omega⟩

theorem Headroom.room (h : Headroom n m) : Room n m := by
  obtain ⟨k, L, hh, hk, hle⟩ := h
  have hge := freeBlocks_ge (t := m.heap.table) (n := k) (fun i h1 h2 => hk.free i (hk.total ▸ h2) h1)
  rw [hk.total] at hge
  exact ⟨L, hh, by omega⟩

theorem kzalloc_headroom_one {size : Nat} (h : Headroom (n + 1) m) (h1 : 1 ≤ size) (h2 : size ≤ 4096) :
    Does (kzalloc size) m (fun p m' => p ≠ 0 ∧ Headroom n m') := by
  have e := mallocBlocks_one h1 h2
  exact kzalloc_headroom (by rw [e]; exact h) (by omega) (by omega)

/-- a heap with fewer allocations -/
theorem Headroom.less (h : Headroom n m) {D L : List Run} (hh : m.Holds (D ++ L)) (hh' : m'.Holds L) :
    Headroom n m' := by
  obtain ⟨k, -, -, hk, hle⟩ := h
  refine ⟨k, L, hh', ⟨hh'.saddr, hh'.total, fun i hi hki => ?_⟩, hle⟩
  refine (hh'.tiled.free_iff (by rw [hh'.total]; exact hi)).mpr (fun r hr => ?_)
  exact (hh.tiled.free_iff (by rw [hh.total]; exact hi)).mp (hk.free i hi hki) r
    (List.mem_append_right D hr)

instance : Supply Headroom where
  mono h hk := h.mono hk
  one := kzalloc_headroom_one
  again := by
    intro n m size h h1 h2
    obtain ⟨k, L, hh, hk, hle⟩ := h
    have hroom : Room (n + 1) m := Headroom.room ⟨k, L, hh, hk, hle⟩
    obtain ⟨u, m', hrun, L', hh', -⟩ := kzalloc_kfree_room hroom h1 h2
    obtain ⟨p, m1, hrun1, hrun2⟩ := bind_eq_ok hrun
    have hk1 := kzalloc_raises_one h1 h2 k m p m1 hk hrun1
    exact ⟨u, m', hrun, k + 1, L', hh', kfree_raises p _ m1 u m' hk1 hrun2, by omega⟩

end

/-! ## programs that run -/

/-- a program that runs leaves what it owns -/
theorem Owns.does {σ α : Type} {mach : σ → Machine} {O L : List Run} {x : Prog σ α} {s : σ}
    {P : α → σ → Prop} {Q : α → σ → List Run → Prop} (hx : Owns mach O x s Q)
    (hh : (mach s).Holds (O ++ L)) (h : Does x s P) : Does x s (fun a s' => P a s' ∧
      ∃ N, Q a s' N ∧ (mach s').Holds (N ++ L) ∧ Untouched L (mach s) (mach s')) := by
  obtain ⟨a, s', hrun, hP⟩ := h
  exact ⟨a, s', hrun, hP, hx L a s' hh hrun⟩

end LameOS
