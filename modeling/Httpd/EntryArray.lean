import Httpd.HeapBlocks
import Httpd.Lib.Transition

namespace Httpd
open Transition
set_option autoImplicit true

def DirectoryEntries.push (entries : DirectoryEntries w) (entry : DirectoryEntry) :
    DirectoryEntries w := { entries with entries := entries.entries ++ [entry] }

/-- `duplicate_string` into the next slot, with which every append ends. -/
def storeEntry (name : Bytes) (isDirectory : Bool) (entries : DirectoryEntries w) (heap : Heap) :
    Bool × DirectoryEntries w × Heap :=
  match heap.malloc (name.length + 1) with
  | (none, heap) => (false, entries, heap)
  | (some nameBlock, heap) => (true, entries.push ⟨name, nameBlock, isDirectory⟩, heap)

/-- The array is full: the count is compared with the capacity modulo `2 ^ w`. -/
def DirectoryEntries.Full (entries : DirectoryEntries w) : Prop :=
  BitVec.ofNat w entries.entries.length = entries.entryCapacity

def grownCapacity (capacity : BitVec w) : BitVec w := if capacity = 0 then 16 else capacity * 2

def DirectoryEntries.grow (entries : DirectoryEntries w) (block : Nat) : DirectoryEntries w :=
  { entries with block := some block, entryCapacity := grownCapacity entries.entryCapacity }

theorem DirectoryEntries.push_length (entries : DirectoryEntries w) (entry : DirectoryEntry) :
    (entries.push entry).entries.length = entries.entries.length + 1 := List.length_append

theorem storeEntry_cases {entries entries' : DirectoryEntries w} {heap heap' : Heap}
    (h : storeEntry name isDirectory entries heap = (ok, entries', heap')) :
    (ok = false ∧ entries' = entries ∧ heap.malloc (name.length + 1) = (none, heap')) ∨
      ∃ nameBlock, ok = true ∧ entries' = entries.push ⟨name, nameBlock, isDirectory⟩ ∧
        heap.malloc (name.length + 1) = (some nameBlock, heap') := by
  unfold storeEntry at h
  split at h
  · rename_i hm
    cases h
    exact .inl ⟨rfl, rfl, hm⟩
  · rename_i hm
    cases h
    exact .inr ⟨_, rfl, rfl, hm⟩

section Append

variable {entries entries' : DirectoryEntries w} {heap heap' : Heap}

theorem appendDirectoryEntry_room (h : ¬ entries.Full) :
    appendDirectoryEntry entries name isDirectory heap =
      storeEntry name isDirectory entries heap := if_neg h

theorem appendDirectoryEntry_full (h : entries.Full) :
    appendDirectoryEntry entries name isDirectory heap =
      if grownCapacity entries.entryCapacity < entries.entryCapacity then (false, entries, heap)
      else
        match heap.realloc entries.block
            (grownCapacity entries.entryCapacity * directoryEntrySize w).toNat with
        | (none, heap) => (false, entries, heap)
        | (some grown, heap) => storeEntry name isDirectory (entries.grow grown) heap := if_pos h

theorem appendDirectoryEntry_cases
    (h : appendDirectoryEntry entries name isDirectory heap = (ok, entries', heap')) :
    (¬ entries.Full ∧ storeEntry name isDirectory entries heap = (ok, entries', heap')) ∨
      (entries.Full ∧ ok = false ∧ entries' = entries ∧
        (heap' = heap ∨ ∃ size, heap.realloc entries.block size = (none, heap'))) ∨
      (entries.Full ∧ ¬ grownCapacity entries.entryCapacity < entries.entryCapacity ∧
        ∃ block heap₁, heap.realloc entries.block
            (grownCapacity entries.entryCapacity * directoryEntrySize w).toNat =
              (some block, heap₁) ∧
          storeEntry name isDirectory (entries.grow block) heap₁ = (ok, entries', heap')) := by
  by_cases hfull : entries.Full
  · rw [appendDirectoryEntry_full hfull] at h
    by_cases hwraps : grownCapacity entries.entryCapacity < entries.entryCapacity
    · rw [if_pos hwraps] at h
      cases h
      exact .inr (.inl ⟨hfull, rfl, rfl, .inl rfl⟩)
    · rw [if_neg hwraps] at h
      split at h
      · rename_i hm
        cases h
        exact .inr (.inl ⟨hfull, rfl, rfl, .inr ⟨_, hm⟩⟩)
      · rename_i hm
        exact .inr (.inr ⟨hfull, hwraps, _, _, hm, h⟩)
  · rw [appendDirectoryEntry_room hfull] at h
    exact .inl ⟨hfull, h⟩

end Append

/-- The current array was asked for with the size of its capacity, not wrapped around, and the
slots that are filled lie inside it. -/
def DirectoryEntries.Sized (entries : DirectoryEntries w) (heap : Heap) : Prop :=
  ∃ block size, entries.block = some block ∧ heap.blockSize block = some size ∧
    size = entries.entryCapacity.toNat * (directoryEntrySize w).toNat ∧
    entries.entries.length * (directoryEntrySize w).toNat ≤ size

def DirectoryEntries.DoubleFits (entries : DirectoryEntries w) : Prop :=
  entries.Full → entries.entries.length * (directoryEntrySize w).toNat * 2 < 2 ^ w

structure DirectoryEntries.Backed (entries : DirectoryEntries w) (heap : Heap) : Prop where
  numbered : heap.Numbered
  count : entries.entries.length ≤ entries.entryCapacity.toNat
  array : (entries.block = none ∧ entries.entryCapacity = 0) ∨
    ∃ block, entries.block = some block ∧ heap.blockSize block =
      some (entries.entryCapacity.toNat * (directoryEntrySize w).toNat)

theorem full_iff {entries : DirectoryEntries w}
    (hcount : entries.entries.length ≤ entries.entryCapacity.toNat) :
    entries.Full ↔ entries.entries.length = entries.entryCapacity.toNat := by
  have hlt := Nat.lt_of_le_of_lt hcount entries.entryCapacity.isLt
  rw [DirectoryEntries.Full]
  constructor
  · intro h
    have he := congrArg BitVec.toNat h
    rwa [BitVec.toNat_ofNat, Nat.mod_eq_of_lt hlt] at he
  · intro h
    rw [h, BitVec.ofNat_toNat, BitVec.setWidth_eq]

section Sizes

variable {w : Nat} (hw : 8 ≤ w)
include hw

theorem entrySize_toNat : (directoryEntrySize w).toNat = w / 8 * 2 ∧
    16 * (directoryEntrySize w).toNat < 2 ^ w := by
  have hlt : w / 8 < 2 ^ (w / 8) := Nat.lt_two_pow_self
  have hle : 2 ^ (w / 8 + 5) ≤ 2 ^ w := Nat.pow_le_pow_right (by decide) (by omega)
  rw [Nat.pow_add] at hle
  have hsize : (directoryEntrySize w).toNat = w / 8 * 2 := by
    rw [directoryEntrySize, BitVec.toNat_ofNat, Nat.mod_eq_of_lt (by omega)]
  exact ⟨hsize, by omega⟩

variable {entries : DirectoryEntries w}
  (hcount : entries.entries.length ≤ entries.entryCapacity.toNat)
include hcount

theorem grownCapacity_toNat (hfull : entries.Full)
    (hguard : ¬ grownCapacity entries.entryCapacity < entries.entryCapacity) :
    (grownCapacity entries.entryCapacity).toNat =
      if entries.entries.length = 0 then 16 else entries.entries.length * 2 := by
  have hlen := (full_iff hcount).1 hfull
  have hlt := entries.entryCapacity.isLt
  have htwo : (2 : BitVec w).toNat = 2 := ofNat_toNat_small hw (by decide)
  by_cases hzero : entries.entryCapacity = 0
  · have hnil : entries.entries.length = 0 := hlen.trans (hzero ▸ BitVec.toNat_zero)
    rw [grownCapacity, if_pos hzero, if_pos hnil]
    exact ofNat_toNat_small hw (by decide)
  · have hne : entries.entries.length ≠ 0 := fun he =>
      hzero (BitVec.eq_of_toNat_eq ((hlen.symm.trans he).trans BitVec.toNat_zero.symm))
    rw [grownCapacity, if_neg hzero, BitVec.lt_def, BitVec.toNat_mul, htwo, ← hlen] at hguard
    rw [grownCapacity, if_neg hzero, if_neg hne, BitVec.toNat_mul, htwo, ← hlen]
    by_cases hfits : entries.entries.length * 2 < 2 ^ w
    · exact Nat.mod_eq_of_lt hfits
    · rw [Nat.mod_eq_sub_mod (Nat.le_of_not_lt hfits), Nat.mod_eq_of_lt (by omega)] at hguard
      omega

/-- What `realloc` is asked for is the size of the new capacity just if the old array could be
doubled. -/
theorem grownSize_iff (hfull : entries.Full)
    (hguard : ¬ grownCapacity entries.entryCapacity < entries.entryCapacity) :
    (grownCapacity entries.entryCapacity * directoryEntrySize w).toNat =
        (grownCapacity entries.entryCapacity).toNat * (directoryEntrySize w).toNat ↔
      entries.DoubleFits := by
  have hgrown := grownCapacity_toNat hw hcount hfull hguard
  obtain ⟨-, hsixteen⟩ := entrySize_toNat hw
  have hfits : entries.DoubleFits ↔
      entries.entries.length * (directoryEntrySize w).toNat * 2 < 2 ^ w :=
    ⟨fun h => h hfull, fun h _ => h⟩
  have hexact : (grownCapacity entries.entryCapacity).toNat * (directoryEntrySize w).toNat < 2 ^ w ↔
      entries.DoubleFits := by
    rw [hfits, hgrown]
    by_cases hzero : entries.entries.length = 0
    · rw [if_pos hzero, hzero, Nat.zero_mul, Nat.zero_mul]
      exact iff_of_true hsixteen (Nat.two_pow_pos w)
    · rw [if_neg hzero, Nat.mul_right_comm]
  rw [← hexact, BitVec.toNat_mul]
  exact ⟨fun h => h ▸ Nat.mod_lt _ (Nat.two_pow_pos w), fun h => Nat.mod_eq_of_lt h⟩

end Sizes

section Steps

variable {entries entries' : DirectoryEntries w} {heap heap' : Heap}

theorem DirectoryEntries.Backed.sized (h : entries.Backed heap) (hne : entries.entries ≠ []) :
    entries.Sized heap := by
  rcases h.array with ⟨-, hzero⟩ | ⟨block, hblock, hsize⟩
  · have hcount := h.count
    rw [hzero] at hcount
    exact absurd (Nat.le_zero.1 (hcount.trans_eq BitVec.toNat_zero)) (by
      simpa only [List.length_eq_zero_iff] using hne)
  · exact ⟨block, _, hblock, hsize, rfl, Nat.mul_le_mul_right _ h.count⟩

theorem DirectoryEntries.Backed.later (h : entries.Backed heap) (hn : heap'.Numbered)
    {events : List HeapEvent} (ht : heap'.trace = heap.trace ++ events) : entries.Backed heap' := by
  refine ⟨hn, h.count, ?_⟩
  rcases h.array with hnone | ⟨block, hblock, hsize⟩
  · exact .inl hnone
  · exact .inr ⟨block, hblock, Heap.blockSize_later hsize ht⟩

theorem DirectoryEntries.Backed.refused (h : entries.Backed heap)
    (hm : heap.malloc size = (none, heap')) : entries.Backed heap' :=
  h.later (h.numbered.malloc_none hm) ((Heap.malloc_none hm).1.trans (List.append_nil _).symm)

theorem DirectoryEntries.Backed.store (h : entries.Backed heap)
    (hroom : entries.entries.length < entries.entryCapacity.toNat)
    (hs : storeEntry name isDirectory entries heap = (ok, entries', heap')) :
    entries'.Backed heap' ∧ (ok = true → entries'.Sized heap') := by
  rcases storeEntry_cases hs with ⟨rfl, rfl, hm⟩ | ⟨nameBlock, -, rfl, hm⟩
  · exact ⟨h.refused hm, fun he => absurd he (by decide)⟩
  · have hkept := h.later (h.numbered.malloc_some hm) (Heap.malloc_some hm).2.2
    have hstored : (entries.push ⟨name, nameBlock, isDirectory⟩).Backed heap' := by
      refine ⟨hkept.numbered, ?_, hkept.array⟩
      rw [entries.push_length]
      exact hroom
    exact ⟨hstored, fun _ => hstored.sized (List.append_ne_nil_of_right_ne_nil _ (List.cons_ne_nil _ _))⟩

variable (hw : 8 ≤ w)
include hw

theorem DirectoryEntries.Backed.grow {block : Nat} (h : entries.Backed heap) (hfull : entries.Full)
    (hguard : ¬ grownCapacity entries.entryCapacity < entries.entryCapacity)
    (hd : entries.DoubleFits)
    (hm : heap.realloc entries.block
      (grownCapacity entries.entryCapacity * directoryEntrySize w).toNat = (some block, heap')) :
    (entries.grow block).Backed heap' ∧
      (entries.grow block).entries.length < (entries.grow block).entryCapacity.toNat := by
  have hcapacity := grownCapacity_toNat hw h.count hfull hguard
  have hsize := (grownSize_iff hw h.count hfull hguard).2 hd
  have hless : entries.entries.length < (grownCapacity entries.entryCapacity).toNat := by
    rw [hcapacity]
    split <;> omega
  rw [hsize] at hm
  exact ⟨⟨h.numbered.realloc_some hm, Nat.le_of_lt hless,
    .inr ⟨block, rfl, Heap.blockSize_realloc h.numbered hm⟩⟩, hless⟩

theorem DirectoryEntries.Backed.append (h : entries.Backed heap) (hd : entries.DoubleFits)
    (ha : appendDirectoryEntry entries name isDirectory heap = (ok, entries', heap')) :
    entries'.Backed heap' ∧ (ok = true → entries'.Sized heap') := by
  rcases appendDirectoryEntry_cases ha with ⟨hroom, hs⟩ | ⟨-, rfl, rfl, hkept⟩ |
    ⟨hfull, hguard, block, heap₁, hm, hs⟩
  · have hne : entries.entries.length ≠ entries.entryCapacity.toNat :=
      fun he => hroom ((full_iff h.count).2 he)
    exact h.store (Nat.lt_of_le_of_ne h.count hne) hs
  · refine ⟨?_, fun he => absurd he (by decide)⟩
    rcases hkept with rfl | ⟨size, hm⟩
    · exact h
    · exact h.refused (Heap.realloc_none hm)
  · obtain ⟨hgrown, hless⟩ := h.grow hw hfull hguard hd hm
    exact hgrown.store hless hs

omit hw in
theorem DirectoryEntries.Backed.append_full (h : entries.Backed heap) (hfull : entries.Full)
    (ha : appendDirectoryEntry entries name isDirectory heap = (true, entries', heap')) :
    ¬ grownCapacity entries.entryCapacity < entries.entryCapacity ∧
      entries'.entryCapacity = grownCapacity entries.entryCapacity ∧
      ∃ grown, entries'.block = some grown ∧ heap'.blockSize grown =
        some (grownCapacity entries.entryCapacity * directoryEntrySize w).toNat := by
  rcases appendDirectoryEntry_cases ha with ⟨hroom, -⟩ | ⟨-, he, -⟩ |
    ⟨-, hguard, block, heap₁, hm, hs⟩
  · exact absurd hfull hroom
  · cases he
  · have hasked := Heap.blockSize_realloc h.numbered hm
    rcases storeEntry_cases hs with ⟨he, -⟩ | ⟨nameBlock, -, rfl, hname⟩
    · cases he
    · exact ⟨hguard, rfl, block, rfl, Heap.blockSize_later hasked (Heap.malloc_some hname).2.2⟩

theorem DirectoryEntries.Backed.append_wraps (h : entries.Backed heap) (hd : ¬ entries.DoubleFits)
    (ha : appendDirectoryEntry entries name isDirectory heap = (true, entries', heap')) :
    ¬ entries'.Sized heap' := by
  have hfull : entries.Full := by
    by_contra hroom
    exact hd fun hfull => absurd hfull hroom
  obtain ⟨hguard, hcapacity, grown, hgrown, hasked⟩ := h.append_full hfull ha
  rintro ⟨block', size, hblock, hrecorded, hsize, -⟩
  rw [hgrown] at hblock
  cases hblock
  rw [hasked] at hrecorded
  rw [hcapacity] at hsize
  exact hd ((grownSize_iff hw h.count hfull hguard).1 ((Option.some.inj hrecorded).trans hsize))

end Steps

structure EntryCall where
  name : Bytes
  isDirectory : Bool
  ok : Bool

def Appends (s : DirectoryEntries w × Heap) (call : EntryCall) (t : DirectoryEntries w × Heap) :
    Prop :=
  appendDirectoryEntry s.1 call.name call.isDirectory s.2 = (call.ok, t)

/-- Calls none of which has doubled an array whose size could not be doubled. -/
abbrev FittingRun (w : Nat) :=
  Run fun (s : DirectoryEntries w × Heap) call t => s.1.DoubleFits ∧ Appends s call t

section Run

variable {w : Nat} {s t : DirectoryEntries w × Heap} (hw : 8 ≤ w)
include hw

theorem appendRun_backed
    (hrun : FittingRun w (DirectoryEntries.empty w, ⟨outcomes, 0, []⟩) calls s) :
    s.1.Backed s.2 := by
  apply hrun.invariant
  · rintro s call t h ⟨hd, ha⟩
    exact (h.append hw hd ha).1
  · exact ⟨rfl, Nat.zero_le _, .inl ⟨rfl, rfl⟩⟩

/-- As long as no array has been doubled whose size could not be, the next append that succeeds
leaves an array of the size of its capacity, with the new slot inside it, just if it does not
double one either. -/
theorem appendRun_sized
    (hrun : FittingRun w (DirectoryEntries.empty w, ⟨outcomes, 0, []⟩) calls s)
    (ha : Appends s call t) (hok : call.ok = true) : t.1.Sized t.2 ↔ s.1.DoubleFits := by
  have hbacked := appendRun_backed hw hrun
  constructor
  · intro hsized
    by_contra hd
    rw [Appends, hok] at ha
    exact hbacked.append_wraps hw hd ha hsized
  · intro hd
    exact (hbacked.append hw hd ha).2 hok

end Run

section Granted

variable {w : Nat} {s t : DirectoryEntries w × Heap} (hw : 8 ≤ w)
include hw

/-- The guard lets every capacity through whose double is a number of slots, not of bytes. -/
theorem guard_passes {entries : DirectoryEntries w}
    (hcount : entries.entries.length ≤ entries.entryCapacity.toNat) (hfull : entries.Full)
    (hdouble : entries.entries.length * 2 < 2 ^ w) :
    ¬ grownCapacity entries.entryCapacity < entries.entryCapacity := by
  have hlen := (full_iff hcount).1 hfull
  by_cases hzero : entries.entryCapacity = 0
  · rw [hzero, BitVec.lt_def]
    exact Nat.not_lt_zero _
  · have htwo : (2 : BitVec w).toNat = 2 := ofNat_toNat_small hw (by decide)
    rw [grownCapacity, if_neg hzero, BitVec.lt_def, BitVec.toNat_mul, htwo, ← hlen,
      Nat.mod_eq_of_lt hdouble]
    omega

omit hw in
theorem storeEntry_granted (name : Bytes) (isDirectory : Bool) (entries : DirectoryEntries w)
    {heap : Heap} (h : heap.Granting) : ∃ heap' nameBlock,
      storeEntry name isDirectory entries heap =
        (true, entries.push ⟨name, nameBlock, isDirectory⟩, heap') ∧ heap'.Granting := by
  obtain ⟨heap', hm, hg⟩ := h.malloc (name.length + 1)
  exact ⟨heap', heap.nextBlock, by rw [storeEntry, hm], hg⟩

omit hw in
theorem append_granted (call : EntryCall) (hok : call.ok = true) (hroom : ¬ s.1.Full)
    (h : s.2.Granting) : ∃ t, Appends s call t ∧ t.2.Granting ∧
      t.1.entries.length = s.1.entries.length + 1 ∧ t.1.entryCapacity = s.1.entryCapacity := by
  obtain ⟨heap', nameBlock, hs, hg⟩ := storeEntry_granted call.name call.isDirectory s.1 h
  refine ⟨(s.1.push ⟨call.name, nameBlock, call.isDirectory⟩, heap'), ?_, hg, s.1.push_length _, rfl⟩
  rw [Appends, appendDirectoryEntry_room hroom, hok]
  exact hs

omit hw in
theorem append_grows (call : EntryCall) (hok : call.ok = true) (hfull : s.1.Full)
    (hguard : ¬ grownCapacity s.1.entryCapacity < s.1.entryCapacity) (h : s.2.Granting) :
    ∃ t, Appends s call t ∧ t.2.Granting ∧ t.1.entries.length = s.1.entries.length + 1 ∧
      t.1.entryCapacity = grownCapacity s.1.entryCapacity := by
  obtain ⟨heap₁, hm, hg₁⟩ := h.realloc s.1.block
    (grownCapacity s.1.entryCapacity * directoryEntrySize w).toNat
  obtain ⟨heap', nameBlock, hs, hg⟩ := storeEntry_granted call.name call.isDirectory
    (s.1.grow s.2.nextBlock) hg₁
  refine ⟨((s.1.grow s.2.nextBlock).push ⟨call.name, nameBlock, call.isDirectory⟩, heap'), ?_, hg,
    DirectoryEntries.push_length _ _, rfl⟩
  rw [Appends, appendDirectoryEntry_full hfull, if_neg hguard, hm, hok]
  exact hs

omit hw in
theorem fill_granted (call : EntryCall) (hok : call.ok = true) {n : Nat}
    (hn : s.1.entries.length + n ≤ s.1.entryCapacity.toNat) (h : s.2.Granting) :
    ∃ t, FittingRun w s (List.replicate n call) t ∧ t.2.Granting ∧
      t.1.entries.length = s.1.entries.length + n ∧ t.1.entryCapacity = s.1.entryCapacity := by
  induction n generalizing s with
  | zero => exact ⟨s, .nil s, h, rfl, rfl⟩
  | succ n ih =>
    have hroom : ¬ s.1.Full := by
      rw [full_iff (Nat.le_trans (Nat.le_add_right _ _) hn)]
      omega
    obtain ⟨u, hu, hg, hlen, hcapacity⟩ := append_granted call hok hroom h
    obtain ⟨t, hrun, hgt, hlent, hcapacityt⟩ :=
      @ih u (by rw [hlen, hcapacity]; omega) hg
    refine ⟨t, ?_, hgt, by omega, hcapacityt.trans hcapacity⟩
    exact .cons ⟨fun hfull => absurd hfull hroom, hu⟩ hrun

theorem double_granted (call : EntryCall) (hok : call.ok = true) (hg : s.2.Granting)
    (hfull : s.1.Full) (hcount : s.1.entries.length ≤ s.1.entryCapacity.toNat)
    (hd : s.1.DoubleFits) (hlen : s.1.entries.length * 2 < 2 ^ w) {n : Nat}
    (hn : (if s.1.entries.length = 0 then 16 else s.1.entries.length * 2) = n) :
    ∃ calls t, FittingRun w s calls t ∧ t.2.Granting ∧ t.1.entries.length = n ∧
      t.1.entryCapacity.toNat = n := by
  have hguard := guard_passes hw hcount hfull hlen
  have hcapacity := grownCapacity_toNat hw hcount hfull hguard
  obtain ⟨u, hu, hgu, hlenu, hcapacityu⟩ := append_grows call hok hfull hguard hg
  rw [hn, ← hcapacityu] at hcapacity
  have hless : u.1.entries.length ≤ n := by
    rw [hlenu, ← hn]
    split <;> omega
  obtain ⟨t, hrun, hgt, hlent, hcapacityt⟩ :=
    fill_granted (s := u) (n := n - u.1.entries.length) call hok (by omega) hgu
  exact ⟨_, t, .cons ⟨hd, hu⟩ hrun, hgt, by omega, by rw [hcapacityt, hcapacity]⟩

theorem climb_granted (call : EntryCall) (hok : call.ok = true) {k : Nat}
    (hk : 16 * 2 ^ k * (directoryEntrySize w).toNat < 2 ^ w) :
    ∃ calls t, FittingRun w (DirectoryEntries.empty w, ⟨[], 0, []⟩) calls t ∧ t.2.Granting ∧
      t.1.entries.length = 16 * 2 ^ k ∧ t.1.entryCapacity.toNat = 16 * 2 ^ k := by
  have hsize := (entrySize_toNat hw).1
  have hentry : 2 ≤ (directoryEntrySize w).toNat := by omega
  induction k with
  | zero =>
    have hpos := Nat.two_pow_pos w
    have hempty : 0 * (directoryEntrySize w).toNat * 2 < 2 ^ w := by
      rwa [Nat.zero_mul, Nat.zero_mul]
    exact double_granted hw (s := (DirectoryEntries.empty w, ⟨[], 0, []⟩)) call hok
      (fun _ h => absurd h List.not_mem_nil) rfl (Nat.zero_le _) (fun _ => hempty) hpos rfl
  | succ k ih =>
    have hpow : 16 * 2 ^ (k + 1) = 16 * 2 ^ k * 2 := by
      rw [Nat.pow_succ, Nat.mul_assoc]
    have hbytes : 16 * 2 ^ k * (directoryEntrySize w).toNat * 2 < 2 ^ w := by
      rwa [hpow, Nat.mul_right_comm] at hk
    have hslots : 16 * 2 ^ k ≤ 16 * 2 ^ k * (directoryEntrySize w).toNat :=
      Nat.le_mul_of_pos_right _ (by omega)
    obtain ⟨calls, s, hrun, hg, hlen, hcapacity⟩ := ih (by omega)
    have hcount : s.1.entries.length = s.1.entryCapacity.toNat := hlen.trans hcapacity.symm
    have hd : s.1.DoubleFits := by
      intro _
      rwa [hlen]
    have hne : s.1.entries.length ≠ 0 := by
      have hpos := Nat.two_pow_pos k
      omega
    have hgrown : (if s.1.entries.length = 0 then 16 else s.1.entries.length * 2) =
        16 * 2 ^ (k + 1) := by
      rw [if_neg hne, hlen, hpow]
    obtain ⟨calls', t, hrun', hgt, hlent, hcapacityt⟩ := double_granted hw call hok hg
      ((full_iff (Nat.le_of_eq hcount)).2 hcount) (Nat.le_of_eq hcount) hd (by omega) hgrown
    exact ⟨calls ++ calls', t, hrun.append hrun', hgt, hlent, hcapacityt⟩

end Granted

def entryCall : EntryCall := ⟨ascii "a", false, true⟩

theorem appendRun_sized_first : ∃ t : DirectoryEntries 64 × Heap,
    Appends (DirectoryEntries.empty 64, ⟨[], 0, []⟩) entryCall t ∧
      (t.1.Sized t.2 ↔ (DirectoryEntries.empty 64).DoubleFits) := by
  obtain ⟨t, ha, -⟩ := append_grows (s := (DirectoryEntries.empty 64, ⟨[], 0, []⟩)) entryCall rfl rfl
    (by decide) (fun _ h => absurd h List.not_mem_nil)
  exact ⟨t, ha, appendRun_sized (by decide) (.nil _) ha rfl⟩

/-- With `2 ^ 59` entries the guard lets `2 ^ 60` through, and `realloc` is asked for 0 bytes. -/
theorem capacity_wraps : ∃ (calls : List EntryCall) (s t : DirectoryEntries 64 × Heap),
    FittingRun 64 (DirectoryEntries.empty 64, ⟨[], 0, []⟩) calls s ∧
      s.1.entries.length = 2 ^ 59 ∧ Appends s entryCall t ∧ ¬ t.1.Sized t.2 ∧
      ∃ block, t.1.block = some block ∧ t.2.blockSize block = some 0 := by
  have hw : 8 ≤ 64 := by decide
  obtain ⟨calls, s, hrun, hg, hlen, hcapacity⟩ :=
    climb_granted hw entryCall rfl (k := 55) (by decide)
  have hcount : s.1.entries.length = s.1.entryCapacity.toNat := hlen.trans hcapacity.symm
  have hfull : s.1.Full := (full_iff (Nat.le_of_eq hcount)).2 hcount
  have hdouble : s.1.entries.length * 2 < 2 ^ 64 := by
    rw [hlen]
    decide
  have hguard := guard_passes hw (Nat.le_of_eq hcount) hfull hdouble
  obtain ⟨t, ha, -⟩ := append_grows entryCall rfl hfull hguard hg
  have hbacked := appendRun_backed hw hrun
  obtain ⟨-, -, grown, hgrown, hasked⟩ := hbacked.append_full hfull ha
  have hold : s.1.entryCapacity = BitVec.ofNat 64 (16 * 2 ^ 55) := BitVec.eq_of_toNat_eq hcapacity
  have hd : ¬ s.1.DoubleFits := by
    intro h
    have hbytes := h hfull
    rw [hlen] at hbytes
    exact absurd hbytes (by decide)
  rw [hold] at hasked
  exact ⟨calls, s, t, hrun, hlen, ha, hbacked.append_wraps hw hd ha, grown, hgrown, hasked⟩

end Httpd
