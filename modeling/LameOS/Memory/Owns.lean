import LameOS.Memory.PagingSpec

/-!
# Programs and the allocations they own

`Owns mach O x s Q`: run from `s`, where the heap consists of the allocations `O` and of others, `x`
returns with a value, a state and allocations `N` of its own for which `Q` holds; the others, and
their contents, are as before.  `mach` is the machine in the state.

* `Owns.pure`, `Owns.bind`, `Owns.mono`, `Owns.frame`, `Owns.perm`, `Owns.part`   the rules;
* `Owns.still`             a program that leaves the machine alone;
* `Points ps N`            the addresses of the allocations `N` are those of `ps`;
* `kzalloc_owns`, `kfree_owns`   one allocation more, one less.
-/

set_option linter.unusedVariables false

namespace LameOS
open Lib Lib.Exec

/-! ## contents -/

/-- the words of the runs of `L` are the same -/
def Untouched (L : List Run) (m m' : Machine) : Prop :=
  ∀ r ∈ L, ∀ b, r.Mem b → ∀ j < 1024,
    m'.mem.load (blockAddr b + 4 * j) = m.mem.load (blockAddr b + 4 * j)

theorem Untouched.refl (L : List Run) (m : Machine) : Untouched L m m := fun _ _ _ _ _ _ => rfl

theorem Untouched.trans {L : List Run} {m m' m'' : Machine} (h : Untouched L m m')
    (h' : Untouched L m' m'') : Untouched L m m'' := fun r hr b hb j hj =>
  (h' r hr b hb j hj).trans (h r hr b hb j hj)

theorem Untouched.mono {L L' : List Run} {m m' : Machine} (h : Untouched L m m')
    (hL : ∀ r ∈ L', r ∈ L) : Untouched L' m m' := fun r hr => h r (hL r hr)

theorem Untouched.of_mem {L : List Run} {m m' : Machine} (h : m'.mem = m.mem) :
    Untouched L m m' := fun _ _ _ _ _ _ => by rw [h]

theorem Untouched.oneBlock {L : List Run} {m m' : Machine} (h : Untouched L m m') {b j : Nat}
    (hb : oneBlock b ∈ L) (hj : j < 1024) :
    m'.mem.load (blockAddr b + 4 * j) = m.mem.load (blockAddr b + 4 * j) :=
  h _ hb b ⟨le_refl b, Nat.lt_succ_self b⟩ j hj

/-- a change that stays in the blocks `B` -/
theorem Frame.untouched {B : Nat → Prop} {m m' : Machine} (h : Frame B m m') {L : List Run}
    (hin : ∀ r ∈ L, r.start + r.len ≤ heapBlocks) (hB : ∀ r ∈ L, ∀ b, r.Mem b → ¬ B b) :
    Untouched L m m' := fun r hr b hb j hj =>
  h.block (lt_of_lt_of_le hb.2 (hin r hr)) hj (hB r hr b hb)

/-! ## the rules -/

/-- the machine as a state of its own -/
abbrev itself : Machine → Machine := fun m => m

/-- see the head of the file -/
def Owns {σ α : Type} (mach : σ → Machine) (O : List Run) (x : Prog σ α) (s : σ)
    (Q : α → σ → List Run → Prop) : Prop :=
  ∀ L a s', (mach s).Holds (O ++ L) → x s = .ok (a, s') →
    ∃ N, Q a s' N ∧ (mach s').Holds (N ++ L) ∧ Untouched L (mach s) (mach s')

section
variable {σ τ α β : Type} {mach : σ → Machine} {O N F : List Run} {s : σ}
  {Q R : α → σ → List Run → Prop}

theorem Owns.pure {a : α} (h : Q a s O) : Owns mach O (pure a) s Q := by
  intro L b s' hh hrun
  obtain ⟨rfl, rfl⟩ := pure_eq_ok hrun
  exact ⟨O, h, hh, Untouched.refl L _⟩

theorem Owns.throw {e : Fault} : Owns mach O (throw e : Prog σ α) s Q := by
  intro L a s' hh hrun
  cases hrun

theorem Owns.bind {x : Prog σ α} {f : α → Prog σ β} {P : β → σ → List Run → Prop}
    (hx : Owns mach O x s Q) (hf : ∀ a s' N, Q a s' N → Owns mach N (f a) s' P) :
    Owns mach O (x >>= f) s P := by
  intro L b s'' hh hrun
  obtain ⟨a, s', h1, h2⟩ := bind_eq_ok hrun
  obtain ⟨N, hQ, hh1, hu1⟩ := hx L a s' hh h1
  obtain ⟨N', hP, hh2, hu2⟩ := hf a s' N hQ L b s'' hh1 h2
  exact ⟨N', hP, hh2, hu1.trans hu2⟩

theorem Owns.get_bind {f : σ → Prog σ α} (h : Owns mach O (f s) s Q) :
    Owns mach O (get >>= f) s Q := by
  intro L a s' hh hrun
  rw [bind_ok (get_run s)] at hrun
  exact h L a s' hh hrun

theorem Owns.mono {x : Prog σ α} (hx : Owns mach O x s Q) (h : ∀ a s' N, Q a s' N → R a s' N) :
    Owns mach O x s R := by
  intro L a s' hh hrun
  obtain ⟨N, hQ, hrest⟩ := hx L a s' hh hrun
  exact ⟨N, h a s' N hQ, hrest⟩

/-- with what else is known of the run -/
theorem Owns.along {x : Prog σ α} {P : α → σ → Prop} (hx : Owns mach O x s Q)
    (h : ∀ a s', x s = .ok (a, s') → P a s') :
    Owns mach O x s (fun a s' N => Q a s' N ∧ P a s') := by
  intro L a s' hh hrun
  obtain ⟨N, hQ, hrest⟩ := hx L a s' hh hrun
  exact ⟨N, ⟨hQ, h a s' hrun⟩, hrest⟩

theorem Owns.ite {c : Prop} [Decidable c] {x y : Prog σ α} (hx : c → Owns mach O x s Q)
    (hy : ¬ c → Owns mach O y s Q) : Owns mach O (if c then x else y) s Q := by
  by_cases h : c
  · rw [if_pos h]
    exact hx h
  · rw [if_neg h]
    exact hy h

/-- other allocations stay as they are, and keep their contents -/
theorem Owns.beside {x : Prog σ α} (hx : Owns mach O x s Q) (F : List Run) :
    Owns mach (O ++ F) x s (fun a s' N =>
      ∃ N', Q a s' N' ∧ N = N' ++ F ∧ Untouched F (mach s) (mach s')) := by
  intro L a s' hh hrun
  rw [List.append_assoc] at hh
  obtain ⟨N, hQ, hh', hu⟩ := hx (F ++ L) a s' hh hrun
  rw [← List.append_assoc] at hh'
  exact ⟨N ++ F, ⟨N, hQ, rfl, hu.mono (fun r hr => List.mem_append_left L hr)⟩, hh',
    hu.mono (fun r hr => List.mem_append_right F hr)⟩

theorem Owns.frame {x : Prog σ α} (hx : Owns mach O x s Q) (F : List Run) :
    Owns mach (O ++ F) x s (fun a s' N => ∃ N', Q a s' N' ∧ N = N' ++ F) :=
  (hx.beside F).mono (fun a s' N h => by
    obtain ⟨N', hQ, hN, -⟩ := h
    exact ⟨N', hQ, hN⟩)

theorem Owns.perm {x : Prog σ α} (hx : Owns mach O x s Q) (hp : N.Perm O) : Owns mach N x s Q := by
  intro L a s' hh hrun
  exact hx L a s' (hh.perm (hp.append_right L)) hrun

/-- a program that leaves the machine alone -/
theorem Owns.still {x : Prog σ α} (h : ∀ a s', x s = .ok (a, s') → mach s' = mach s) :
    Owns mach O x s (fun a s' N => x s = .ok (a, s') ∧ N = O) := by
  intro L a s' hh hrun
  have e := h a s' hrun
  refine ⟨O, ⟨hrun, rfl⟩, hh.congr (by rw [e]), ?_⟩
  rw [e]
  exact Untouched.refl L _

theorem Owns.modify {f : σ → σ} (h : mach (f s) = mach s) :
    Owns mach O (modify f : Prog σ PUnit) s (fun _ s' N => s' = f s ∧ N = O) := by
  intro L a s' hh hrun
  cases hrun
  refine ⟨O, ⟨rfl, rfl⟩, hh.congr (by rw [h]), ?_⟩
  rw [h]
  exact Untouched.refl L _

/-- a computation without a state -/
theorem Owns.lift {x : Except Fault α} :
    Owns mach O (liftM x : Prog σ α) s (fun a s' N => x = .ok a ∧ s' = s ∧ N = O) := by
  intro L a s' hh hrun
  cases x with
  | error e => cases hrun
  | ok b =>
    cases hrun
    exact ⟨O, ⟨rfl, rfl, rfl⟩, hh, Untouched.refl L _⟩

theorem Owns.onlyIf {c : Prop} [Decidable c] {x : Prog σ PUnit} {Q : PUnit → σ → List Run → Prop}
    (hx : c → Owns mach O x s Q) (h : ¬ c → Q () s O) : Owns mach O (onlyIf c x) s Q :=
  Owns.ite hx (fun hc => Owns.pure (h hc))

/-- a program over a part of the state that has the machine -/
theorem Owns.part {t : τ} {mach' : τ → Machine} {get : τ → σ} {put : σ → τ → τ} {x : Prog σ α}
    (hx : Owns mach O x (get t) Q) (hget : mach (get t) = mach' t)
    (hput : ∀ s, mach' (put s t) = mach s) :
    Owns mach' O (part get put x) t (fun a t' N => ∃ s', Q a s' N ∧ t' = put s' t) := by
  intro L a t' hh hrun
  obtain ⟨s', hrun', rfl⟩ := part_eq_ok hrun
  rw [← hget] at hh
  obtain ⟨N, hQ, hh', hu⟩ := hx L a s' hh hrun'
  rw [hput, ← hget]
  exact ⟨N, ⟨s', hQ, rfl⟩, hh', hu⟩

end

/-! ## pointers -/

/-- the address of an allocation -/
def runAddr (r : Run) : Nat := blockAddr r.start

/-- the allocations `N` start at the pointers `ps` -/
def Points (ps : List Nat) (N : List Run) : Prop := (N.map runAddr).Perm ps

theorem Points.nil : Points [] [] := List.Perm.refl []

theorem Points.eq_nil {N : List Run} (h : Points [] N) : N = [] :=
  List.map_eq_nil_iff.mp (List.perm_nil.mp h)

theorem Points.single (r : Run) : Points [runAddr r] [r] := List.Perm.refl _

theorem Points.append {ps qs : List Nat} {M N : List Run} (hM : Points ps M) (hN : Points qs N) :
    Points (ps ++ qs) (M ++ N) := by
  unfold Points
  rw [List.map_append]
  exact List.Perm.append hM hN

theorem Points.perm {ps qs : List Nat} {N : List Run} (h : Points ps N) (hp : ps.Perm qs) :
    Points qs N := List.Perm.trans h hp

/-- the allocation of a pointer -/
theorem Points.cons {p : Nat} {ps : List Nat} {N : List Run} (h : Points (p :: ps) N) :
    ∃ r N', runAddr r = p ∧ N.Perm (r :: N') ∧ Points ps N' := by
  have hp : p ∈ N.map runAddr := h.mem_iff.mpr List.mem_cons_self
  obtain ⟨r, hr, hrp⟩ := List.mem_map.mp hp
  obtain ⟨M, M', rfl⟩ := List.append_of_mem hr
  refine ⟨r, M ++ M', hrp, List.perm_middle, ?_⟩
  have hperm : ((M ++ r :: M').map runAddr).Perm (p :: (M ++ M').map runAddr) := by
    rw [List.map_append, List.map_append, List.map_cons, hrp]
    exact List.perm_middle
  exact (List.perm_cons p).mp (hperm.symm.trans h)

theorem runAddr_ne {r : Run} : runAddr r ≠ 0 := blockAddr_ne

/-! ## the heap -/

section
variable {m : Machine} {O : List Run} {p size : Nat}

/-- the size is that of an allocation, or zero -/
def Sized (size : Nat) : Prop := size ≤ 4294963200

theorem mallocBlocks_sized {size : Nat} (h : Sized size) : mallocBlocks size = blocksFor size := by
  unfold mallocBlocks
  exact heapAlign_blocks h

theorem blocksFor_size (size : Nat) : size ≤ blocksFor size * 4096 := by
  unfold blocksFor
  omega

/-- a change of bytes inside an allocation -/
theorem outside_untouched {m : Machine} {mem : Mem} {L : List Run} {b n off size : Nat}
    (h : m.Holds (⟨b, n⟩ :: L)) (hsize : off + size ≤ n * 4096)
    (hout : ∀ x, size ≤ (x - BitVec.ofNat 32 (blockAddr b + off)).toNat → mem x = m.mem x) :
    Untouched L m { m with mem := mem } := by
  intro r hr c hc j hj
  have hin := h.inside (r := ⟨b, n⟩) List.mem_cons_self
  have hinr := h.inside (List.mem_cons_of_mem _ hr)
  have hapart := (List.pairwise_cons.mp h.tiled.separate).1 r hr
  have hdis : c < b ∨ b + n ≤ c := by
    by_contra hno
    exact hapart c ⟨(by omega : b ≤ c), (by omega : c < b + n)⟩ hc
  have hc2 := hc.2
  have hb : blockAddr b + n * 4096 ≤ 0x7400000 := by
    have : b + n ≤ heapBlocks := hin
    unfold heapBlocks at this
    unfold blockAddr heapAddress
    omega
  have hcb := blockAddr_lt (lt_of_lt_of_le hc2 hinr)
  have e1 := blockAddr_page b
  have e2 := blockAddr_page c
  exact Mem.load_outside hout (by omega) (by omega) (by omega) (by omega)

/-- `memset` inside an allocation -/
theorem fill_untouched {m : Machine} {L : List Run} {b n size : Nat} (h : m.Holds (⟨b, n⟩ :: L))
    (hsize : size ≤ n * 4096) :
    Untouched L m { m with mem := m.mem.fill (blockAddr b) size 0 } := by
  have hsize' : 0 + size ≤ n * 4096 := by omega
  exact outside_untouched h hsize' (fun x hx => Mem.fill_out m.mem 0 hx)

/-- a pointer that owns nothing: `NULL`, or the address of a free block -/
def Idle (m : Machine) (p : Nat) : Prop :=
  p = 0 ∨ ∃ b < heapBlocks, p = blockAddr b ∧ Free m.heap.table b

theorem kzalloc_zero {m m' : Machine} {L : List Run} (h : m.Holds L) {p : Nat}
    (hrun : kzalloc 0 m = .ok (p, m')) : m' = m ∧ Idle m p := by
  obtain ⟨q, hq, hfree⟩ := heapMallocBlocks_zero m.heap
  have hk : kmalloc 0 m = .ok (q, m) := kmalloc_of hq
  have hidle : Idle m q := by
    rcases hfree with h0 | ⟨b, hb, hf, rfl⟩
    · exact Or.inl h0
    · have hb : b < heapBlocks := h.total ▸ hb
      exact Or.inr ⟨b, hb, blockAddr_eq h.saddr hb, hf⟩
  unfold kzalloc at hrun
  rw [bind_ok hk] at hrun
  by_cases h0 : q = 0
  · rw [if_pos h0] at hrun
    obtain ⟨rfl, rfl⟩ := pure_eq_ok hrun
    exact ⟨rfl, Or.inl rfl⟩
  · rw [if_neg h0] at hrun
    cases hrun
    exact ⟨rfl, hidle⟩

/-- freeing a block that is free changes nothing -/
theorem kfree_free {m : Machine} {L : List Run} (h : m.Holds L) {b : Nat} (hb : b < heapBlocks)
    (hf : Free m.heap.table b) : kfree (blockAddr b) m = .ok ((), m) := by
  have hlt := heapBlocks_lt
  have htot := h.total
  have hfree : heapFree m.heap (blockAddr b) = .ok m.heap := by
    unfold heapFree
    rw [addressToBlock_blockAddr h.saddr hb]
    exact heapMarkBlocksFree_free h.tiled (by omega) (by omega) hf
  exact kfree_of hfree

/-- **An allocation more, or `NULL`**; a size of zero may give a pointer that owns nothing. -/
theorem kzalloc_owns (hsize : Sized size) (m : Machine) :
    Owns (fun m => m) O (kzalloc size) m (fun p m' N =>
      (∃ r, r.len = blocksFor size ∧ r.start + r.len ≤ heapBlocks ∧ p = runAddr r ∧ N = r :: O) ∨
        (p = 0 ∧ N = O) ∨
        (Idle m' p ∧ N = O ∧ size = 0)) := by
  intro L p m' hh hrun
  have e := mallocBlocks_sized hsize
  have hlt : size < 4294967296 := by
    unfold Sized at hsize
    omega
  rcases kzalloc_cases hh hlt hrun with ⟨b, hw, hpos, rfl, rfl⟩ | ⟨hpos, rfl, rfl⟩ | ⟨h0, hheap⟩
  · have hal := hh.alloc hpos hw.1 size
    have haddr : blockAddr b = runAddr ⟨b, mallocBlocks size⟩ := rfl
    have hin := hal.inside (r := ⟨b, mallocBlocks size⟩) List.mem_cons_self
    refine ⟨⟨b, mallocBlocks size⟩ :: O, Or.inl ⟨⟨b, mallocBlocks size⟩, e, hin, haddr, rfl⟩, hal, ?_⟩
    have hle : size ≤ mallocBlocks size * 4096 := by
      rw [e]
      exact blocksFor_size size
    have hfill : Untouched (O ++ L) m (m.alloc ⟨b, mallocBlocks size⟩ size) :=
      fill_untouched (m := { m with heap := m.heap.mark ⟨b, mallocBlocks size⟩ })
        (hal.congr rfl) hle
    exact hfill.mono (fun r hr => List.mem_append_right O hr)
  · exact ⟨O, Or.inr (Or.inl ⟨rfl, rfl⟩), hh, Untouched.refl L _⟩
  · have hs : size = 0 := by
      rw [e] at h0
      unfold blocksFor at h0
      omega
    subst hs
    obtain ⟨rfl, hidle⟩ := kzalloc_zero hh hrun
    exact ⟨O, Or.inr (Or.inr ⟨hidle, rfl, rfl⟩), hh, Untouched.refl L _⟩

/-- one block more, or `NULL` from a heap without a free block -/
theorem kzalloc_owns_block (h1 : 1 ≤ size) (h2 : size ≤ 4096) (m : Machine) :
    Owns (fun m => m) O (kzalloc size) m (fun p m' N =>
      (∃ b, p = blockAddr b ∧ N = oneBlock b :: O ∧ 0 < freeBlocks m.heap.table) ∨
        (p = 0 ∧ N = O ∧ freeBlocks m'.heap.table = 0)) := by
  intro L p m' hh hrun
  rcases kzalloc_cases hh (by omega) hrun with ⟨b, hw, hpos, rfl, rfl⟩ | ⟨hpos, rfl, rfl⟩ | ⟨h0, hheap⟩
  · have hal := hh.alloc hpos hw.1 size
    have e := mallocBlocks_one h1 h2
    rw [e] at hal ⊢
    have hfill : Untouched (O ++ L) m (m.alloc ⟨b, 1⟩ size) :=
      fill_untouched (m := { m with heap := m.heap.mark ⟨b, 1⟩ }) (hal.congr rfl) (by omega)
    rw [e] at hw
    exact ⟨oneBlock b :: O, Or.inl ⟨b, rfl, rfl, freeBlocks_pos.mpr ⟨b, hw.1⟩⟩, hal,
      hfill.mono (fun r hr => List.mem_append_right O hr)⟩
  · refine ⟨O, Or.inr ⟨rfl, rfl, ?_⟩, hh, Untouched.refl L _⟩
    by_contra hne
    obtain ⟨b, -, hk⟩ := kzalloc_block hh h1 h2 (Nat.pos_of_ne_zero hne)
    rw [hk] at hrun
    exact blockAddr_ne (ok_inj hrun).1
  · have := mallocBlocks_one h1 h2
    omega

/-- an allocation less -/
theorem kfree_owns {r : Run} (m : Machine) :
    Owns (fun m => m) (r :: O) (kfree (runAddr r)) m (fun _ _ N => N = O) := by
  intro L a m' hh hrun
  obtain ⟨hk, hh'⟩ := kfree_ok (m := m) (r := r) (L := O ++ L) hh
  have e := (run_unique hk hrun).2
  rw [← e]
  exact ⟨O, rfl, hh', Untouched.of_mem rfl⟩

/-- the release of a pointer that owns nothing; of `NULL` it is a fault -/
theorem kfree_owns_idle {m : Machine} (hp : Idle m p) (h0 : p ≠ 0) :
    Owns (fun m => m) O (kfree p) m (fun _ _ N => N = O) := by
  intro L a m' hh hrun
  rcases hp with hp | ⟨b, hb, rfl, hf⟩
  · exact absurd hp h0
  · have e := (run_unique (kfree_free hh hb hf) hrun).2
    rw [← e]
    exact ⟨O, rfl, hh, Untouched.refl L m⟩

/-- `NULL` cannot be freed -/
theorem kfree_null {m : Machine} {L : List Run} (h : m.Holds L) :
    kfree 0 m = .error .outOfBounds := by
  have hb : heapAddressToBlock m.heap 0 = -4096 := by
    unfold heapAddressToBlock
    rw [h.saddr]
    rfl
  have hload : m.heap.table.load (-4096) = .error .outOfBounds :=
    m.heap.table.load_out (Or.inl (by decide))
  have hfuel : ∃ n, (cint m.heap.table.total - (-4096)).toNat = n + 1 := by
    rw [h.total]
    exact ⟨29695, by decide⟩
  obtain ⟨n, hn⟩ := hfuel
  have hfree : heapFree m.heap 0 = .error .outOfBounds := by
    unfold heapFree heapMarkBlocksFree
    rw [hb, hn]
    unfold markFreeLoop
    rw [hload]
    rfl
  unfold kfree
  rw [hfree]
  rfl

/-- the release of the first of some pointers -/
theorem kfree_points {m : Machine} {L N : List Run} {ps : List Nat} (h : m.Holds (N ++ L))
    (hp : Points (p :: ps) N) : ∃ m' N', kfree p m = .ok ((), m') ∧ Points ps N' ∧
      m'.Holds (N' ++ L) ∧ m'.mem = m.mem := by
  obtain ⟨r, N', rfl, hperm, hps⟩ := hp.cons
  obtain ⟨hk, hh⟩ := kfree_ok (m := m) (r := r) (L := N' ++ L) (h.perm (hperm.append_right L))
  exact ⟨m.release r, N', hk, hps, hh, rfl⟩

theorem kfree_null_owns {Q : Unit → Machine → List Run → Prop} (m : Machine) :
    Owns (fun m => m) O (kfree 0) m Q := by
  intro L a m' hh hrun
  rw [kfree_null hh] at hrun
  cases hrun

end

end LameOS
