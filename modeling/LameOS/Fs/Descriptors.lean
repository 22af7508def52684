import LameOS.Fs.OpenFiles

/-!
# The numbers of open files

* `OpenState`, `openCall`   a run of calls, with the numbers that `fopen` has returned and `fclose`
                     has not freed, and the descriptor that each `fopen` created;
* `Resolved`         the numbers are distinct, each gives its descriptor, and `fclose` empties its slot;
* `resolved_of_meets`   **so they are as long as the last slot of the table is not taken**: the
                     number 512 is returned, but not looked up.
-/

set_option linter.unusedVariables false

namespace LameOS
open Lib Lib.Exec

/-! ## runs -/

/-- the state, and the open numbers with the addresses of their descriptors -/
structure OpenState where
  files : FileState
  opened : List (Int × Option Nat)

/-- the descriptor that a call has entered into the table, in whatever slot -/
def enteredDescriptor (files files' : Nat → Option FileDescriptor) : Option FileDescriptor :=
  (List.range maxFileDescriptors).findSome? fun i => if (files i).isNone then files' i else none

/-- one call: `fopen` opens the number that it returns, `fclose` closes the one that it is given -/
def openCall (disk : Disk) (s : OpenState) : FileCall → Except Fault OpenState
  | .fopen filename mode =>
    match fopen disk filename mode s.files with
    | .ok (fd, t) => .ok ⟨t, if fd > 0 then
        (fd, (enteredDescriptor s.files.files t.files).map FileDescriptor.addr) :: s.opened
        else s.opened⟩
    | .error e => .error e
  | .fclose fd =>
    match fclose fd s.files with
    | .ok (res, t) => .ok ⟨t, if res = 0 then s.opened.filter (fun o => o.1 ≠ fd) else s.opened⟩
    | .error e => .error e
  | call =>
    match fileCall disk s.files call with
    | .ok t => .ok ⟨t, s.opened⟩
    | .error e => .error e

/-- the open numbers are distinct, each is looked up as the descriptor that was created for it, and
`fclose` of it returns 0 and empties its slot -/
structure Resolved (s : OpenState) : Prop where
  distinct : (s.opened.map Prod.fst).Nodup
  resolves : ∀ fd addr, (fd, addr) ∈ s.opened →
    ∃ desc, fileGetDescriptor s.files fd = some desc ∧ addr = some desc.addr
  closes : ∀ fd addr, (fd, addr) ∈ s.opened → ∃ t, fclose fd s.files = .ok (0, t) ∧
    t.files = Function.update s.files.files (fd - 1).toNat none

/-- the file that is opened is there -/
structure Openable (s : FileState) (filename mode : List UInt8) : Prop where
  accepted : pathAccepted filename = true
  drive : cstr filename 0 = 48
  read : fileModeGetByString mode = .read
  found : ∃ p name k, s.volume = some p ∧ pathNames filename = [name] ∧
    LastNamed p.rootDirectory.buffer name 0 p.rootDirectory.total.toNat k

/-- the call does not open a file in the last slot -/
def SparesLastSlot (s : OpenState) : FileCall → Prop
  | .fopen filename mode =>
    ¬ (FirstSlot s.files.files (maxFileDescriptors - 1) ∧ Openable s.files filename mode)
  | _ => True

/-! ## the table -/

theorem findSome_range {α : Type} {f : Nat → Option α} {i : Nat} {a : α} (hi : f i = some a) (n : Nat)
    (hlt : i < n) (hother : ∀ j, j ≠ i → f j = none) : (List.range n).findSome? f = some a := by
  induction n with
  | zero => omega
  | succ n ih =>
    rw [List.range_succ, List.findSome?_append]
    rcases Nat.eq_or_lt_of_le (Nat.le_of_lt_succ hlt) with rfl | hlt
    · have hnone : (List.range i).findSome? f = none := by
        rw [List.findSome?_eq_none_iff]
        intro j hj
        exact hother j (Nat.ne_of_lt (List.mem_range.mp hj))
      rw [hnone]
      show (match f i with | some b => some b | none => none) = some a
      rw [hi]
    · rw [ih hlt]
      rfl

/-- the descriptor that is entered into a free slot -/
theorem enteredDescriptor_update {files : Nat → Option FileDescriptor} {i : Nat}
    {desc : FileDescriptor} (hslot : FirstSlot files i) :
    enteredDescriptor files (Function.update files i (some desc)) = some desc := by
  refine findSome_range ?_ _ hslot.lt (fun j hj => ?_)
  · rw [hslot.free, Function.update_self]
    rfl
  · rw [Function.update_of_ne hj]
    cases files j <;> rfl

/-- a file is opened on drive 0, for reading -/
theorem fopen_opens {disk : Disk} {filename mode : List UInt8} {s s' : FileState} {fd : Int}
    (h : fopen disk filename mode s = .ok (fd, s')) (hfd : 0 < fd) :
    cstr filename 0 = 48 ∧ fileModeGetByString mode = .read := by
  unfold fopen at h
  obtain ⟨res, s1, hres, h⟩ := bind_eq_ok h
  obtain ⟨rfl, -⟩ := pure_eq_ok h
  have hle : ∀ e : Int, e ≤ 0 → e ≠ res := by
    rintro e he rfl
    split at hfd <;> omega
  unfold fopenStatus at hres
  obtain ⟨r, s2, hparse, hres⟩ := bind_eq_ok hres
  obtain ⟨m, hparse, -⟩ := part_eq_ok hparse
  cases r with
  | none => exact absurd (pure_eq_ok hres).1 (hle _ (by decide))
  | some root =>
    dsimp only at hres
    split at hres
    · exact absurd (pure_eq_ok hres).1 (hle _ (by decide))
    · split at hres
      · exact absurd (pure_eq_ok hres).1 (hle _ (by decide))
      · rename_i hdrive
        rw [bind_ok (get_run s2)] at hres
        split at hres
        · exact absurd (pure_eq_ok hres).1 (hle _ (by decide))
        · split at hres
          · exact absurd (pure_eq_ok hres).1 (hle _ (by decide))
          · obtain ⟨q, s3, hopen, hres⟩ := bind_eq_ok hres
            refine ⟨?_, ?_⟩
            · have hdigit := (pathparserParse_some hparse).2.1
              unfold tonumericdigit at hdigit
              refine UInt8.toNat_inj.mp ?_
              show (cstr filename 0).toNat = 48
              omega
            · -- in another mode the driver returns a status
              by_contra hmode
              have hq : q = .error (-ERDONLY) := by
                unfold onVolume fat16Open at hopen
                rw [if_pos hmode] at hopen
                split at hopen
                · cases hopen
                · cases hopen
                  rfl
              rw [hq] at hres
              exact absurd (pure_eq_ok hres).1 (hle _ (by decide))

/-- a seek leaves the item as it is -/
theorem fat16Seek_item {d d' : FatFileDescriptor} {offset : Nat} {whence : FileSeekMode} {r : Int}
    (h : fat16Seek d offset whence = .ok (r, d')) : d'.addr = d.addr ∧ d'.item = d.item := by
  unfold fat16Seek at h
  split at h
  · cases h
    exact ⟨rfl, rfl⟩
  · cases hr : d.item.ptr.record with
    | error e =>
      rw [hr] at h
      cases h
    | ok rec =>
      rw [hr, ok_bind] at h
      cases hn : rec.filesize with
      | error e =>
        rw [hn] at h
        cases h
      | ok n =>
        rw [hn, ok_bind] at h
        split at h
        · cases h
          exact ⟨rfl, rfl⟩
        · cases whence
          all_goals
            cases h
            exact ⟨rfl, rfl⟩

/-! ## the invariant -/

/-- what is entered for the descriptor of slot `i` -/
def openedAt (s : FileState) (i : Nat) : Int × Option Nat :=
  (i + 1, (s.files i).map FileDescriptor.addr)

/-- the descriptor in slot `i`, with the allocations `D` -/
structure SlotHeld (s : FileState) (i : Nat) (D : List Run) : Prop where
  lt : i < maxFileDescriptors - 1
  held : ∃ desc, s.files i = some desc ∧ desc.index = i + 1 ∧ Closable desc.priv ∧
    Points (descriptorPtrs desc) D

/-- the open numbers are those of the slots `slots`, and each slot has the allocations `D` gives it -/
structure Tabled (slots : List Nat) (D : Nat → List Run) (L : List Run) (s : OpenState) : Prop where
  opened : s.opened = slots.map (openedAt s.files)
  nodup : slots.Nodup
  taken : ∀ i, i ∈ slots ↔ s.files.files i ≠ none
  held : ∀ i ∈ slots, SlotHeld s.files i (D i)
  heap : s.files.machine.Holds (slots.flatMap D ++ L)
  mounted : (rootOf s.files).isSome = true

section
variable {disk : Disk} {slots : List Nat} {D : Nat → List Run} {L : List Run} {s t : OpenState}

theorem rootOf_volume {s : FileState} (h : (rootOf s).isSome = true) : ∃ p, s.volume = some p := by
  unfold rootOf at h
  rw [Option.isSome_map] at h
  exact Option.isSome_iff_exists.mp h

/-- a number that is looked up is that of a slot -/
theorem Tabled.slot (h : Tabled slots D L s) {fd : Int} {desc : FileDescriptor}
    (hget : fileGetDescriptor s.files fd = some desc) :
    ∃ i ∈ slots, fd = i + 1 ∧ s.files.files i = some desc := by
  unfold fileGetDescriptor at hget
  split at hget
  · cases hget
  · rename_i hfd
    refine ⟨(fd - 1).toNat, (h.taken _).mpr (by rw [hget]; exact Option.some_ne_none desc), ?_, hget⟩
    omega

theorem fileGetDescriptor_slot {s : FileState} {i : Nat} (hi : i < maxFileDescriptors - 1) :
    fileGetDescriptor s (i + 1 : Nat) = s.files i := by
  unfold fileGetDescriptor
  dsimp only [maxFileDescriptors] at hi ⊢
  rw [if_neg (by omega), show ((i + 1 : Nat) - 1 : Int).toNat = i by omega]

/-- the descriptor of a slot is closed, and the others stay -/
theorem Tabled.close (h : Tabled slots D L s) {i : Nat} (hi : i ∈ slots) : ∃ m',
    fclose (i + 1 : Nat) s.files = .ok (0, { s.files with
      machine := m', files := Function.update s.files.files i none }) ∧
    m'.Holds ((slots.erase i).flatMap D ++ L) := by
  obtain ⟨hlt, desc, hdesc, hindex, hclosable, hpoints⟩ := h.held i hi
  obtain ⟨p, hp⟩ := rootOf_volume h.mounted
  have hheap : s.files.machine.Holds (D i ++ ((slots.erase i).flatMap D ++ L)) := by
    refine h.heap.perm ?_
    rw [← List.append_assoc]
    exact ((List.perm_cons_erase hi).flatMap_right D).append_right L
  dsimp only [maxFileDescriptors] at hlt
  obtain ⟨m', hrun, hh, -⟩ := fclose_run hp ((fileGetDescriptor_slot hlt).trans hdesc) hclosable
    (by omega) (by dsimp only [maxFileDescriptors]; omega) hheap hpoints
  rw [hindex, show ((i : Int) + 1 - 1).toNat = i by omega] at hrun
  exact ⟨m', hrun, hh⟩

/-- **The invariant gives the law of the numbers.** -/
theorem Tabled.resolved (h : Tabled slots D L s) : Resolved s := by
  have hmem : ∀ fd addr, (fd, addr) ∈ s.opened →
      ∃ i ∈ slots, fd = (i + 1 : Nat) ∧ addr = (s.files.files i).map FileDescriptor.addr := by
    intro fd addr hin
    rw [h.opened] at hin
    obtain ⟨i, hi, e⟩ := List.mem_map.mp hin
    obtain ⟨rfl, rfl⟩ := Prod.mk.inj e
    exact ⟨i, hi, rfl, rfl⟩
  refine ⟨?_, fun fd addr hin => ?_, fun fd addr hin => ?_⟩
  · rw [h.opened, List.map_map]
    refine h.nodup.map (fun i j e => ?_)
    have e : ((i : Int) + 1) = j + 1 := e
    omega
  · obtain ⟨i, hi, rfl, rfl⟩ := hmem fd addr hin
    obtain ⟨hlt, desc, hdesc, -⟩ := h.held i hi
    refine ⟨desc, (fileGetDescriptor_slot hlt).trans hdesc, ?_⟩
    rw [hdesc]
    rfl
  · obtain ⟨i, hi, rfl, -⟩ := hmem fd addr hin
    obtain ⟨m', hrun, -⟩ := h.close hi
    refine ⟨_, hrun, ?_⟩
    rw [show ((i + 1 : Nat) - 1 : Int).toNat = i by omega]

/-! ## the calls -/

theorem SlotHeld.congr {s f : FileState} {i : Nat} {D : List Run} (h : SlotHeld s i D)
    (hf : f.files i = s.files i) : SlotHeld f i D := by
  refine ⟨h.lt, ?_⟩
  rw [hf]
  exact h.held

/-- what leaves the table alone, over whatever other allocations -/
theorem Tabled.congr (h : Tabled slots D L s) {f : FileState} {L' : List Run}
    (hh : f.machine.Holds (slots.flatMap D ++ L')) (hf : f.files = s.files.files)
    (hr : rootOf f = rootOf s.files) : Tabled slots D L' ⟨f, s.opened⟩ := by
  refine ⟨?_, h.nodup, ?_, fun i hi => (h.held i hi).congr (congrFun hf i), hh,
    by rw [hr]; exact h.mounted⟩
  · show s.opened = slots.map (openedAt f)
    rw [h.opened]
    unfold openedAt
    rw [hf]
  · show ∀ i, i ∈ slots ↔ f.files i ≠ none
    rw [hf]
    exact h.taken

/-- a descriptor that is replaced keeps its number and its allocations -/
theorem Tabled.replace (h : Tabled slots D L s) {i : Nat} {desc desc' : FileDescriptor}
    (hi : s.files.files i = some desc) (haddr : desc'.addr = desc.addr)
    (hindex : desc'.index = desc.index) (hclosable : Closable desc.priv → Closable desc'.priv)
    (hptrs : descriptorPtrs desc' = descriptorPtrs desc) :
    Tabled slots D L ⟨{ s.files with files := Function.update s.files.files i (some desc') },
      s.opened⟩ := by
  refine ⟨?_, h.nodup, fun j => ?_, fun j hj => ?_, h.heap, h.mounted⟩
  · show s.opened = _
    rw [h.opened]
    refine List.map_congr_left (fun j _ => ?_)
    unfold openedAt
    by_cases e : j = i
    · rw [e]
      show _ = (_, (Function.update s.files.files i (some desc') i).map FileDescriptor.addr)
      rw [Function.update_self, hi]
      show (_, some desc.addr) = (_, some desc'.addr)
      rw [haddr]
    · show _ = (_, (Function.update s.files.files i (some desc') j).map FileDescriptor.addr)
      rw [Function.update_of_ne e]
  · show j ∈ slots ↔ Function.update s.files.files i (some desc') j ≠ none
    rw [h.taken j]
    by_cases e : j = i
    · rw [e, Function.update_self, hi]
      exact ⟨fun _ => Option.some_ne_none _, fun _ => Option.some_ne_none _⟩
    · rw [Function.update_of_ne e]
  · obtain ⟨hlt, d, hd, h1, h2, h3⟩ := h.held j hj
    refine ⟨hlt, ?_⟩
    show ∃ d, Function.update s.files.files i (some desc') j = some d ∧ _
    by_cases e : j = i
    · rw [e, Function.update_self]
      rw [e, hi] at hd
      obtain rfl := Option.some.inj hd
      rw [e] at h1 h3
      exact ⟨desc', rfl, hindex.trans h1, hclosable h2, by rw [hptrs]; exact h3⟩
    · rw [Function.update_of_ne e]
      exact ⟨d, hd, h1, h2, h3⟩

/-- a descriptor is entered into a free slot, with the allocations `E` -/
theorem Tabled.enter (h : Tabled slots D L s) {f : FileState} {i : Nat} {desc : FileDescriptor}
    {E L' : List Run} (hfiles : f.files = Function.update s.files.files i (some desc))
    (hfree : s.files.files i = none) (hheld : SlotHeld f i E)
    (hheap : f.machine.Holds (E ++ slots.flatMap D ++ L')) (hmounted : (rootOf f).isSome = true) :
    Tabled (i :: slots) (Function.update D i E) L'
      ⟨f, ((i : Int) + 1, some desc.addr) :: s.opened⟩ := by
  have hnew : i ∉ slots := fun hi => (h.taken i).mp hi hfree
  have hne : ∀ j ∈ slots, j ≠ i := by
    rintro j hj rfl
    exact hnew hj
  have hother : ∀ j ∈ slots, f.files j = s.files.files j := fun j hj => by
    rw [hfiles, Function.update_of_ne (hne j hj)]
  have hD : ∀ j ∈ slots, Function.update D i E j = D j := fun j hj =>
    Function.update_of_ne (hne j hj) _ _
  refine ⟨?_, List.nodup_cons.mpr ⟨hnew, h.nodup⟩, fun j => ?_, fun j hj => ?_, ?_, hmounted⟩
  · show ((i : Int) + 1, some desc.addr) :: s.opened = (i :: slots).map (openedAt f)
    rw [h.opened, List.map_cons]
    refine congrArg₂ List.cons ?_ (List.map_congr_left (fun j hj => ?_))
    · unfold openedAt
      rw [hfiles, Function.update_self]
      rfl
    · unfold openedAt
      rw [hother j hj]
  · show j ∈ i :: slots ↔ f.files j ≠ none
    rw [List.mem_cons, hfiles]
    by_cases e : j = i
    · rw [e, Function.update_self]
      exact ⟨fun _ => Option.some_ne_none desc, fun _ => Or.inl rfl⟩
    · rw [Function.update_of_ne e, ← h.taken j]
      exact ⟨fun hor => hor.resolve_left e, Or.inr⟩
  · rcases List.mem_cons.mp hj with rfl | hj
    · rw [Function.update_self]
      exact hheld
    · rw [hD j hj]
      exact (h.held j hj).congr (hother j hj)
  · show f.machine.Holds ((i :: slots).flatMap (Function.update D i E) ++ L')
    rw [List.flatMap_cons, Function.update_self, List.flatMap_congr hD]
    exact hheap

/-- an `fopen` that spares the last slot -/
theorem Tabled.of_fopen (h : Tabled slots D L s) {filename mode : List UInt8}
    (hc : SparesLastSlot s (.fopen filename mode))
    (hstep : openCall disk s (.fopen filename mode) = .ok t) :
    ∃ slots' D' L', Tabled slots' D' L' t := by
  dsimp only [openCall] at hstep
  cases hrun : fopen disk filename mode s.files with
  | error e =>
    rw [hrun] at hstep
    cases hstep
  | ok r =>
    obtain ⟨fd, f⟩ := r
    rw [hrun] at hstep
    obtain rfl := Except.ok.inj hstep
    obtain ⟨N, ⟨hleaves, hnn⟩, hh, -⟩ :=
      fopen_owns disk filename mode s.files (slots.flatMap D ++ L) fd f h.heap hrun
    rcases hleaves with ⟨-, hle, rfl, -⟩ |
      ⟨hacc, K, E, hperm, -, ⟨hle, hfiles⟩ | ⟨i, desc, rfl, hent, hE⟩⟩
    · rw [if_neg (by omega)]
      exact ⟨slots, D, L, h⟩
    · -- all that is left is lost
      rw [if_neg (by omega)]
      have hheap : f.machine.Holds (slots.flatMap D ++ (N ++ L)) := by
        refine hh.perm ?_
        rw [← List.append_assoc, ← List.append_assoc]
        exact List.perm_append_comm.append_right L
      exact ⟨slots, D, N ++ L, h.congr hheap hfiles (fopen_root hrun)⟩
    · rw [if_pos (by omega), hent.files, enteredDescriptor_update hent.slot]
      obtain ⟨p, name, hp, hnames, hfile⟩ := hent.file
      have hlt : i < maxFileDescriptors - 1 := by
        have hi := hent.slot.lt
        have hne : i ≠ maxFileDescriptors - 1 := by
          rintro rfl
          obtain ⟨k, -, -, hk, -⟩ := hfile.item
          obtain ⟨hdrive, hmode⟩ := fopen_opens hrun (by omega)
          exact hc ⟨hent.slot, hacc, hdrive, hmode, p, name, k, hp, hnames, hk⟩
        omega
      have hheld : SlotHeld f i E :=
        ⟨hlt, desc, by rw [hent.files, Function.update_self], hent.index, hfile.closable, hE⟩
      -- the descriptor's allocations come first, what is lost goes to the others
      have hheap : f.machine.Holds (E ++ slots.flatMap D ++ (K ++ L)) := by
        have e1 : (N ++ (slots.flatMap D ++ L)).Perm (K ++ (E ++ slots.flatMap D ++ L)) := by
          rw [List.append_assoc E, ← List.append_assoc K]
          exact hperm.append_right _
        have e2 : (K ++ (E ++ slots.flatMap D ++ L)).Perm (E ++ slots.flatMap D ++ (L ++ K)) := by
          rw [← List.append_assoc _ L K]
          exact List.perm_append_comm
        exact hh.perm ((e1.trans e2).trans (List.Perm.append_left _ List.perm_append_comm))
      have hmounted : (rootOf f).isSome = true := by
        unfold rootOf
        rw [Option.isSome_map]
        exact hent.mounted
      exact ⟨_, _, _, h.enter hent.files hent.slot.free hheld hheap hmounted⟩

/-- a call of `fclose` -/
theorem Tabled.of_fclose (h : Tabled slots D L s) {fd : Int}
    (hstep : openCall disk s (.fclose fd) = .ok t) : ∃ slots', Tabled slots' D L t := by
  dsimp only [openCall] at hstep
  cases hrun : fclose fd s.files with
  | error e =>
    rw [hrun] at hstep
    cases hstep
  | ok r =>
    obtain ⟨res, f⟩ := r
    rw [hrun] at hstep
    obtain rfl := Except.ok.inj hstep
    by_cases h0 : fd = 0
    · have hrun' := hrun
      unfold fclose at hrun'
      rw [bind_ok (get_run s.files), if_pos h0] at hrun'
      obtain ⟨rfl, rfl⟩ := pure_eq_ok hrun'
      rw [if_neg (by decide)]
      exact ⟨slots, h⟩
    · obtain ⟨desc, hdesc⟩ : ∃ desc, fileGetDescriptor s.files fd = some desc := by
        by_contra hno
        have hnone : fileGetDescriptor s.files fd = none :=
          Option.eq_none_iff_forall_ne_some.mpr (fun d hd => hno ⟨d, hd⟩)
        unfold fclose at hrun
        rw [bind_ok (get_run s.files), if_neg h0, hnone] at hrun
        cases hrun
      obtain ⟨i, hi, rfl, hslot⟩ := h.slot hdesc
      obtain ⟨m', hclose, hh⟩ := h.close hi
      obtain ⟨rfl, rfl⟩ := run_unique hclose hrun
      rw [if_pos rfl]
      have hother : ∀ j ∈ slots.erase i, Function.update s.files.files i none j = s.files.files j := by
        intro j hj
        rw [Function.update_of_ne ((h.nodup.mem_erase_iff.mp hj).1)]
      refine ⟨slots.erase i, ?_, h.nodup.erase i, fun j => ?_, fun j hj => ?_, hh, h.mounted⟩
      · show s.opened.filter _ = _
        have hpred : ∀ j ∈ slots, ((fun o : Int × Option Nat => decide (o.1 ≠ (i : Int) + 1)) ∘
            openedAt s.files) j = (j != i) := by
          intro j _
          show decide ((j : Int) + 1 ≠ (i : Int) + 1) = (j != i)
          by_cases e : j = i
          · rw [e]
            simp
          · rw [decide_eq_true (by omega), bne_iff_ne.mpr e]
        rw [h.opened, List.filter_map, List.filter_congr hpred, ← h.nodup.erase_eq_filter]
        refine List.map_congr_left (fun j hj => ?_)
        unfold openedAt
        rw [← hother j hj]
      · show j ∈ slots.erase i ↔ Function.update s.files.files i none j ≠ none
        rw [h.nodup.mem_erase_iff, h.taken j]
        by_cases e : j = i
        · rw [e, Function.update_self]
          exact ⟨fun hand => absurd rfl hand.1, fun hne => absurd rfl hne⟩
        · rw [Function.update_of_ne e]
          exact ⟨fun hand => hand.2, fun hne => ⟨e, hne⟩⟩
      · exact (h.held j (List.mem_of_mem_erase hj)).congr (hother j hj)

/-- a call of `fseek` moves at most the position -/
theorem Tabled.of_fseek (h : Tabled slots D L s) {fd offset r : Int} {whence : FileSeekMode}
    {f : FileState} (hrun : fseek fd offset whence s.files = .ok (r, f)) :
    Tabled slots D L ⟨f, s.opened⟩ := by
  unfold fseek at hrun
  rw [bind_ok (get_run s.files)] at hrun
  cases hget : fileGetDescriptor s.files fd with
  | none =>
    rw [hget] at hrun
    obtain ⟨-, rfl⟩ := pure_eq_ok hrun
    exact h
  | some desc =>
    obtain ⟨i, hi, rfl, hslot⟩ := h.slot hget
    rw [hget] at hrun
    dsimp only at hrun
    cases hs : fat16Seek desc.priv (cuint offset) whence with
    | error e =>
      rw [hs] at hrun
      cases hrun
    | ok q =>
      obtain ⟨res, priv⟩ := q
      rw [hs] at hrun
      have hf : f = { s.files with
          files := Function.update s.files.files i (some { desc with priv := priv }) } := by
        cases hrun
        rw [show ((i : Int) + 1 - 1).toNat = i by omega]
      obtain ⟨haddr, hitem⟩ := fat16Seek_item hs
      rw [hf]
      refine h.replace hslot rfl rfl
        (fun hc => ⟨by rw [hitem]; exact hc.type, by rw [hitem]; exact hc.item⟩) ?_
      unfold descriptorPtrs fatDescriptorPtrs
      dsimp only
      rw [haddr, hitem]

/-- a call that opens and closes nothing -/
theorem openCall_other {c : FileCall} (hopen : ∀ filename mode, c ≠ .fopen filename mode)
    (hclose : ∀ fd, c ≠ .fclose fd) (hstep : openCall disk s c = .ok t) :
    ∃ f, fileCall disk s.files c = .ok f ∧ t = ⟨f, s.opened⟩ := by
  have hcall : openCall disk s c = (fileCall disk s.files c).map (fun f => ⟨f, s.opened⟩) := by
    cases c with
    | fopen filename mode => exact absurd rfl (hopen filename mode)
    | fclose fd => exact absurd rfl (hclose fd)
    | _ =>
      dsimp only [openCall]
      cases fileCall disk s.files _ <;> rfl
  rw [hcall] at hstep
  cases hrun : fileCall disk s.files c with
  | error e =>
    rw [hrun] at hstep
    cases hstep
  | ok f =>
    rw [hrun] at hstep
    exact ⟨f, rfl, (Except.ok.inj hstep).symm⟩

/-- every call but an `fopen` into the last slot keeps the invariant -/
theorem Tabled.step (h : Tabled slots D L s) {c : FileCall} (hc : SparesLastSlot s c)
    (hstep : openCall disk s c = .ok t) : ∃ slots' D' L', Tabled slots' D' L' t := by
  cases c with
  | fopen filename mode => exact h.of_fopen hc hstep
  | fclose fd =>
    obtain ⟨slots', h'⟩ := h.of_fclose hstep
    exact ⟨slots', D, L, h'⟩
  | fread size nmemb fd =>
    obtain ⟨f, hcall, rfl⟩ := openCall_other (fun _ _ e => by cases e) (fun _ e => by cases e) hstep
    obtain ⟨r, hrun⟩ := after_eq_ok hcall
    obtain ⟨hm, hf, hr⟩ := fread_still hrun
    exact ⟨slots, D, L, h.congr (h.heap.congr (by rw [hm])) hf hr⟩
  | fseek fd offset whence =>
    obtain ⟨f, hcall, rfl⟩ := openCall_other (fun _ _ e => by cases e) (fun _ e => by cases e) hstep
    obtain ⟨r, hrun⟩ := after_eq_ok hcall
    exact ⟨slots, D, L, h.of_fseek hrun⟩
  | fstat fd stat =>
    obtain ⟨f, hcall, rfl⟩ := openCall_other (fun _ _ e => by cases e) (fun _ e => by cases e) hstep
    obtain ⟨r, hrun⟩ := after_eq_ok hcall
    rw [fstat_still hrun]
    exact ⟨slots, D, L, h⟩

/-- no file is open after the mount -/
theorem tabled_mounted {f : FileState} (hfiles : f.files = fun _ => none)
    (hvol : f.volume.isSome = true) (hheap : f.machine.Holds L) :
    Tabled [] (fun _ => []) L ⟨f, []⟩ := by
  refine ⟨rfl, List.nodup_nil, fun i => ?_, fun i hi => absurd hi List.not_mem_nil, hheap, ?_⟩
  · rw [hfiles]
    exact ⟨fun hi => absurd hi List.not_mem_nil, fun hne => absurd rfl hne⟩
  · unfold rootOf
    rw [Option.isSome_map]
    exact hvol

/-- **In every run that opens no file in the last slot of the table the open numbers are distinct,
each is looked up as the descriptor created for it, and `fclose` empties its slot.** -/
theorem resolved_of_meets {calls : List FileCall} {f : FileState} (hfiles : f.files = fun _ => none)
    (hvol : f.volume.isSome = true) (hheap : f.machine.Holds L)
    (hc : Meets (openCall disk) SparesLastSlot ⟨f, []⟩ calls) :
    Throughout (openCall disk) Resolved (fun _ _ => True) ⟨f, []⟩ calls := by
  refine throughout_of_meets (I := fun s => ∃ slots D L, Tabled slots D L s) ?_ ?_ _ calls
    ⟨[], fun _ => [], L, tabled_mounted hfiles hvol hheap⟩ hc
  · rintro s ⟨slots, D, L, h⟩
    exact h.resolved
  · rintro s c ⟨slots, D, L, h⟩ hspare
    exact ⟨trivial, fun t hstep => h.step hspare hstep⟩

end

/-! ## a file that is opened and closed -/

theorem countingDisk_fits : RootFits (fatHeader (diskBytes countingDisk 0 fatHeaderSize)) :=
  ⟨by decide +kernel, by decide +kernel⟩

theorem resolved_of_meets_once : ∃ s m, diskSearchAndInit countingDisk emptyMachine = .ok (s, m) ∧
    Throughout (openCall countingDisk) Resolved (fun _ _ => True) ⟨s, []⟩
      [.fopen [48, 58, 47, 97] [114], .fclose 1] := by
  have hvol : outcome (mounted countingDisk (do let s ← get; return s.volume.isSome)) = some true := by
    decide +kernel
  obtain ⟨s, m, L, s', hmount, hs, -, hrun⟩ := mounted_closed countingDisk_fits hvol
  refine ⟨s, m, hmount, resolved_of_meets hs.files (pure_eq_ok hrun).1 hs.heap
    ⟨fun h => ?_, fun t _ => ⟨trivial, fun u _ => trivial⟩⟩⟩
  -- the first slot is free
  have hfirst := h.1.first 0 (by decide)
  exact hfirst (by show s.files 0 = none; rw [hs.files])

end LameOS
