import LameOS.Fs.Descriptors
import LameOS.Fs.RootDirectory

/-!
# `fopen` of a file that is there

* `PlainName`, `rootPath`   the name of a file in the root directory, and its path;
* `SoleFile`         the directory has one record of the name, that of a file;
* `fopen_enters`     with eight free blocks `fopen` takes the first free slot.
-/

set_option linter.unusedVariables false

namespace LameOS
open Lib Lib.Exec

section
variable {P : Nat → Machine → Prop} [Supply P] {n : Nat} {m : Machine}

/-! ## a path of one part -/

/-- the name of a file in the root directory -/
structure PlainName (name : List UInt8) : Prop where
  ne : name ≠ []
  chars : ∀ c ∈ name, c ≠ 47 ∧ c ≠ 0
  length : name.length ≤ 105

/-- `0:/` and the name -/
def rootPath (name : List UInt8) : List UInt8 := 48 :: 58 :: 47 :: name

theorem PlainName.parsed {name : List UInt8} (h : PlainName name) :
    pathAccepted (rootPath name) = true ∧ pathNames (rootPath name) = [name] := by
  have e : renderPath 48 [name] ++ [] = rootPath name := by
    rw [List.append_nil, renderPath, List.intercalate_singleton]
    rfl
  have hlen : (renderPath 48 [name] ++ []).length ≤ maxPath := by
    have := h.length
    rw [e]
    show name.length + 3 ≤ 108
    omega
  rw [← e]
  refine rendered_names (by decide) (List.cons_ne_nil _ _) (fun n hn => ?_) (Or.inl rfl) hlen
  obtain rfl := List.mem_singleton.mp hn
  exact ⟨h.ne, h.chars⟩

/-- `0:/` and the name -/
theorem pathparserParse_plain {name : List UInt8} (hname : PlainName name) (h : P (n + 4) m) :
    Does (pathparserParse (rootPath name)) m (fun r m' => ∃ root p str, r = some root ∧
      root.driveNo = 0 ∧ root.parts = [⟨p, str, name⟩] ∧ P n m') := by
  obtain ⟨hacc, hn⟩ := hname.parsed
  obtain ⟨_, m', hrun, ⟨root, rfl⟩, hroom⟩ := pathparserParse_supply (n := n) hacc (by rw [hn]; exact h)
  obtain ⟨-, hdrive, hparts⟩ := pathparserParse_some hrun
  rw [hn] at hparts
  obtain ⟨part, hpart, hname'⟩ := List.map_eq_singleton_iff.mp hparts
  obtain ⟨p, str, text⟩ := part
  obtain rfl : text = name := hname'
  exact ⟨_, m', hrun, root, p, str, rfl, hdrive, hpart, hroom⟩

end

/-! ## a directory with one record of a name -/

section
variable {disk : Disk} {buffer : Buffer} {name : List UInt8} {s : FatState}

/-- records of other names are passed over -/
theorem findItemLoop_skip (disk : Disk) (s : FatState) (n fuel : Nat) : ∀ i fItem,
    (∀ j, i ≤ j → j < i + n → Readable (recordAt buffer j) ∧ ¬ HasName buffer name j) →
      findItemLoop disk buffer name (n + fuel) i fItem s
        = findItemLoop disk buffer name fuel (i + n) fItem s := by
  induction n with
  | zero =>
    intro i fItem _
    rw [Nat.zero_add, Nat.add_zero]
  | succ n ih =>
    intro i fItem h
    obtain ⟨⟨tmp, htmp⟩, hno⟩ := h i (le_refl i) (by omega)
    have hcmp : ¬ istrncmp (cstr tmp) (cstr name) maxPath = 0 := fun hc => hno ⟨tmp, htmp, hc⟩
    have hlift : (liftM (fat16GetFullRelativeFilename (recordAt buffer i)) :
        Prog FatState (List UInt8)) s = .ok (tmp, s) := by
      rw [htmp]
      rfl
    rw [show n + 1 + fuel = n + fuel + 1 by omega, findItemLoop_succ, bind_ok hlift, if_neg hcmp,
      ih (i + 1) fItem (fun j h1 h2 => h j (by omega) (by omega)),
      show i + 1 + n = i + (n + 1) by omega]

/-- one record of the name -/
theorem findItem_single (disk : Disk) (s : FatState) {d : FatDirectory} {k : Nat}
    (hk : k < d.total.toNat) (hread : ∀ j < d.total.toNat, Readable (recordAt d.buffer j)) (hname : HasName d.buffer name k)
    (honly : ∀ j < d.total.toNat, HasName d.buffer name j → j = k) :
    fat16FindItemInDirectory disk d name s
      = fat16NewFatItemForDirectoryItem disk (recordAt d.buffer k) s := by
  obtain ⟨n, hn⟩ := Nat.exists_eq_add_of_lt hk
  obtain ⟨tmp, htmp, hcmp⟩ := hname
  have hlift : (liftM (fat16GetFullRelativeFilename (recordAt d.buffer k)) :
      Prog FatState (List UInt8)) s = .ok (tmp, s) := by
    rw [htmp]
    rfl
  have hbefore := findItemLoop_skip disk s k (n + 1) 0 none (fun j _ hj =>
    ⟨hread j (by omega), fun hj' => by have := honly j (by omega) hj'; omega⟩)
  unfold fat16FindItemInDirectory
  rw [hn, show k + n + 1 = k + (n + 1) by omega, hbefore, Nat.zero_add, findItemLoop_succ,
    bind_ok hlift, if_pos hcmp]
  cases hnew : fat16NewFatItemForDirectoryItem disk (recordAt d.buffer k) s with
  | error e => rw [bind_error hnew]
  | ok r =>
    obtain ⟨f, t⟩ := r
    have hafter := findItemLoop_skip disk t n 0 (k + 1) f (fun j h1 h2 =>
      ⟨hread j (by omega), fun hj' => by have := honly j (by omega) hj'; omega⟩)
    rw [Nat.add_zero] at hafter
    rw [bind_ok hnew, hafter]
    rfl

end

/-- the names of the directory can be read, and record `k`, that of a file, is the only one of the
name -/
structure SoleFile (root : FatDirectory) (name : List UInt8) (k : Nat) : Prop where
  lt : k < root.total.toNat
  readable : ∀ j < root.total.toNat, Readable (recordAt root.buffer j)
  named : HasName root.buffer name k
  only : ∀ j < root.total.toNat, HasName root.buffer name j → j = k
  plain : PlainRecord (recordAt root.buffer k)

theorem SoleFile.last {root : FatDirectory} {name : List UInt8} {k j : Nat}
    (h : SoleFile root name k) (hj : LastNamed root.buffer name 0 root.total.toNat j) : j = k :=
  h.only j hj.lt hj.named

section
variable {P : Nat → Machine → Prop} [Supply P] {disk : Disk} {n : Nat} {s : FatState}

theorem onHeap_does {α : Type} {x : Prog Machine α} {Q : α → Machine → Prop}
    (h : Does x s.machine Q) : Does (onHeap x) s (fun a s' =>
      Q a s'.machine ∧ s'.fatPrivate = s.fatPrivate) := by
  obtain ⟨a, m', hrun, hQ⟩ := h
  exact ⟨a, _, part_ok hrun, hQ, rfl⟩

theorem get_does (s : FatState) :
    Does (get : Prog FatState FatState) s (fun a s' => a = s ∧ s' = s) := ⟨s, s, rfl, rfl, rfl⟩

theorem lift_does {α : Type} {x : Except Fault α} {a : α} (h : x = .ok a) :
    Does (liftM x : Prog FatState α) s (fun b s' => b = a ∧ s' = s) := by
  rw [h]
  exact ⟨a, s, rfl, rfl, rfl⟩

/-- the item of a plain record -/
theorem fat16NewFatItem_room (disk : Disk) {item : FatDirectoryItem} (hitem : PlainRecord item)
    (h : P (n + 2) s.machine) : Does (fat16NewFatItemForDirectoryItem disk item) s (fun r s' =>
      (∃ i a copy, r = some i ∧ i.type = fatItemTypeFile ∧ i.ptr = .item a copy ∧
        Cloned item copy) ∧ P n s'.machine) := by
  have hattr := attributes_inside hitem.inside
  obtain ⟨bytes, hcopy⟩ := copyItemLoop_ok item fatDirectoryItemSize 0 hitem.inside
  refine Does.bind (onHeap_does (Supply.one h (by decide) (by decide))) (fun addr s1 h1 => ?_)
  rw [if_neg h1.1.1]
  refine Does.bind (lift_does hattr) (fun a s2 h2 => ?_)
  obtain ⟨rfl, rfl⟩ := h2
  rw [if_neg (not_not_intro hitem.file)]
  refine Does.bind (P := fun p s' => (∃ a copy, p = .item a copy ∧ Cloned item copy) ∧
    P n s'.machine) ?_ (fun c s3 h3 => ?_)
  · unfold fat16CloneDirectoryItem
    rw [if_neg (lt_irrefl _)]
    refine Does.bind (onHeap_does (Supply.one h1.1.2 (by decide) (by decide))) (fun c s3 h3 => ?_)
    rw [if_neg h3.1.1]
    refine Does.bind (lift_does hcopy) (fun bs s4 h4 => ?_)
    obtain ⟨rfl, rfl⟩ := h4
    exact Does.pure ⟨⟨c, _, rfl, bs, hcopy, rfl⟩, h3.1.2⟩
  · obtain ⟨⟨a, copy, rfl, hclone⟩, hroom⟩ := h3
    exact Does.pure ⟨⟨_, a, copy, rfl, rfl, rfl, hclone⟩, hroom⟩

/-- a descriptor at the start of a copy of the record -/
structure OpensRecord (item : FatDirectoryItem) (d : FatFileDescriptor) : Prop where
  pos : d.pos = 0
  type : d.item.type = fatItemTypeFile
  copied : ∃ a copy, d.item.ptr = .item a copy ∧ Cloned item copy

theorem fat16Open_room {name : List UInt8} {p str k : Nat}
    (hroot : SoleFile s.fatPrivate.rootDirectory name k) (h : P (n + 3) s.machine) :
    Does (fat16Open disk [⟨p, str, name⟩] .read) s (fun r s' =>
      (∃ d, r = .ok d ∧ OpensRecord (recordAt s.fatPrivate.rootDirectory.buffer k) d) ∧
        P n s'.machine) := by
  unfold fat16Open
  rw [if_neg (not_not_intro rfl)]
  refine Does.bind (onHeap_does (Supply.one h (by decide) (by decide))) (fun addr s1 h1 => ?_)
  rw [if_neg h1.1.1]
  obtain ⟨root, hr⟩ : ∃ root, s.fatPrivate.rootDirectory = root := ⟨_, rfl⟩
  have hr1 : s1.fatPrivate.rootDirectory = root := by
    rw [h1.2]
    exact hr
  rw [hr] at hroot ⊢
  have hfind : Does (fat16FindItemInDirectory disk root name) s1 (fun r s' =>
      (∃ i a copy, r = some i ∧ i.type = fatItemTypeFile ∧ i.ptr = .item a copy ∧
        Cloned (recordAt root.buffer k) copy) ∧ P n s'.machine) := by
    obtain ⟨r, s2, hnew, hitem, hroom⟩ := fat16NewFatItem_room disk hroot.plain h1.1.2
    refine ⟨r, s2, ?_, hitem, hroom⟩
    rw [findItem_single disk s1 hroot.lt hroot.readable hroot.named hroot.only]
    exact hnew
  have hentry : Does (fat16GetDirectoryEntry disk [⟨p, str, name⟩]) s1 (fun r s' =>
      (∃ i a copy, r = some i ∧ i.type = fatItemTypeFile ∧ i.ptr = .item a copy ∧
        Cloned (recordAt root.buffer k) copy) ∧ P n s'.machine) := by
    refine Does.bind (get_does s1) (fun t s2 h2 => ?_)
    obtain ⟨rfl, rfl⟩ := h2
    rw [hr1]
    refine Does.bind hfind (fun r s3 h3 => ?_)
    obtain ⟨⟨i, a, copy, rfl, hitem⟩, h3⟩ := h3
    exact Does.pure ⟨⟨i, a, copy, rfl, hitem⟩, h3⟩
  refine Does.bind hentry (fun r s2 h2 => ?_)
  obtain ⟨⟨i, a, copy, rfl, htype, hptr, hclone⟩, h2⟩ := h2
  exact Does.pure ⟨⟨_, rfl, rfl, htype, a, copy, hptr, hclone⟩, h2⟩

end

/-! ## one file more -/

section
variable (disk : Disk) {P : Nat → Machine → Prop} [Supply P] {n i : Nat} {s : FileState}

theorem onMemory_does {α : Type} {x : Prog Machine α} {Q : α → Machine → Prop}
    (h : Does x s.machine Q) : Does (onMemory x) s (fun a s' =>
      Q a s'.machine ∧ s' = { s with machine := s'.machine }) := by
  obtain ⟨a, m', hrun, hQ⟩ := h
  exact ⟨a, _, part_ok hrun, hQ, rfl⟩

theorem onVolume_does {α : Type} {p : FatPrivate} (hp : s.volume = some p) {x : Prog FatState α}
    {Q : α → FatState → Prop} (h : Does x ⟨s.machine, p⟩ Q) : Does (onVolume x) s (fun a s' =>
      ∃ t : FatState, Q a t ∧ s' = { s with machine := t.machine, volume := some t.fatPrivate }) := by
  obtain ⟨a, t, hrun, hQ⟩ := h
  refine ⟨a, _, ?_, t, hQ, rfl⟩
  unfold onVolume
  rw [hp]
  dsimp only
  rw [hrun]

theorem newDescriptorLoop_first {files : Nat → Option FileDescriptor} (fuel : Nat) :
    ∀ j k, files (j + k) = none → (∀ l < k, files (j + l) ≠ none) → k < fuel →
      newDescriptorLoop files fuel j = some (j + k) := by
  induction fuel with
  | zero => exact fun j k _ _ hk => absurd hk (Nat.not_lt_zero k)
  | succ fuel ih =>
    intro j k hfree htaken hk
    unfold newDescriptorLoop
    cases k with
    | zero =>
      rw [Nat.add_zero] at hfree
      rw [hfree]
      rfl
    | succ k =>
      have h0 : files j ≠ none := htaken 0 (Nat.succ_pos k)
      rw [if_neg (fun h => h0 (Option.isNone_iff_eq_none.mp h)),
        ih (j + 1) k (by rw [← hfree]; congr 1; omega)
          (fun l hl => by rw [show j + 1 + l = j + (l + 1) by omega]; exact htaken (l + 1) (by omega))
          (by omega)]
      congr 1
      omega

theorem fileNewDescriptor_room (hnew : newDescriptorLoop s.files maxFileDescriptors 0 = some i)
    (h : P (n + 1) s.machine) : Does fileNewDescriptor s (fun r s' =>
      (∃ addr, r = some (i, addr)) ∧ s' = { s with machine := s'.machine } ∧ P n s'.machine) := by
  refine Does.bind ⟨s, s, rfl, rfl, rfl⟩ (fun t s1 (h1 : t = s ∧ s1 = s) => ?_)
  obtain ⟨rfl, rfl⟩ := h1
  rw [hnew]
  refine Does.bind (onMemory_does (Supply.one h (by decide) (by decide))) (fun addr s2 h2 => ?_)
  refine Does.bind (deref_does h2.1.1) (fun _ s3 h3 => ?_)
  rw [h3]
  exact Does.pure ⟨⟨addr, rfl⟩, h2.2, h2.1.2⟩

/-- **With eight free blocks `fopen` of the file enters it in the first free slot.** -/
theorem fopen_enters {name : List UInt8} (hname : PlainName name) {root : FatDirectory} {k : Nat}
    (hslot : FirstSlot s.files i) (hroot : SoleFile root name k)
    (hvol : rootOf s = some root) (h : P (n + 8) s.machine) :
    Does (fopen disk (rootPath name) [114]) s (fun fd s' => fd = i + 1 ∧
      (∃ desc, s'.files = Function.update s.files i (some desc) ∧
        OpensRecord (recordAt root.buffer k) desc.priv) ∧ P n s'.machine) := by
  obtain ⟨p, hp, rfl⟩ : ∃ p, s.volume = some p ∧ p.rootDirectory = root :=
    Option.map_eq_some_iff.mp hvol
  have hstatus : Does (fopenStatus disk (rootPath name) [114]) s (fun fd s' => fd = i + 1 ∧
      (∃ desc, s'.files = Function.update s.files i (some desc) ∧
        OpensRecord (recordAt p.rootDirectory.buffer k) desc.priv) ∧ P n s'.machine) := by
    refine Does.bind (onMemory_does (pathparserParse_plain hname h)) (fun r s1 h1 => ?_)
    obtain ⟨⟨parsed, q, str, rfl, hdrive, hparts, hroom⟩, hs1⟩ := h1
    have hp1 : s1.volume = some p := by rw [hs1]; exact hp
    have hfiles1 : s1.files = s.files := by rw [hs1]
    dsimp only
    rw [hparts, if_neg (List.cons_ne_nil _ _), hdrive, if_neg (not_not_intro rfl)]
    refine Does.bind ⟨s1, s1, rfl, rfl, rfl⟩ (fun t s2 (h2 : t = s1 ∧ s2 = s1) => ?_)
    obtain ⟨rfl, rfl⟩ := h2
    rw [hp1, if_neg (show ¬ (some p).isNone = true from Bool.false_ne_true), if_neg (by decide),
      show fileModeGetByString [114] = .read by decide]
    refine Does.bind (onVolume_does hp1 (fat16Open_room hroot
      (Supply.mono hroom (show n + 1 + 3 ≤ n + 4 by omega)))) (fun r s3 h3 => ?_)
    obtain ⟨t, ⟨⟨d, rfl, hrecord⟩, hroom3⟩, hs3⟩ := h3
    have hfiles3 : s3.files = s.files := by rw [hs3, ← hfiles1]
    have hnew : newDescriptorLoop s3.files maxFileDescriptors 0 = some i := by
      rw [hfiles3, newDescriptorLoop_first maxFileDescriptors 0 i
        (by rw [Nat.zero_add]; exact hslot.free)
        (fun l hl => by rw [Nat.zero_add]; exact hslot.first l hl) hslot.lt, Nat.zero_add]
    have hroom3 : P (n + 1) s3.machine := by
      rw [hs3]
      exact hroom3
    refine Does.bind (fileNewDescriptor_room hnew hroom3) (fun r s4 h4 => ?_)
    obtain ⟨⟨addr, rfl⟩, hs4, hroom4⟩ := h4
    have hfiles4 : s4.files = s.files := by rw [hs4, ← hfiles3]
    refine ⟨i + 1, _, rfl, rfl, ⟨⟨addr, i + 1, d⟩, ?_, hrecord⟩, hroom4⟩
    show Function.update s4.files i _ = _
    rw [hfiles4]
  refine Does.bind hstatus (fun fd s1 h1 => ?_)
  obtain ⟨rfl, h1⟩ := h1
  rw [if_neg (by omega)]
  exact Does.pure ⟨rfl, h1⟩

end

end LameOS
