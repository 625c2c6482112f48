import Httpd.DirectoryListing
import Httpd.Lib.Ledger

namespace Httpd
set_option autoImplicit true

namespace HeapEvent

def acquired : HeapEvent → Option Nat
  | .allocated block _ => some block
  | _ => none

def freed : HeapEvent → Option Nat
  | .released block => some block
  | _ => none

def sizeOf (block : Nat) : HeapEvent → Option Nat
  | .allocated other size => if other = block then some size else none
  | _ => none

end HeapEvent

namespace Heap

def acquired (heap : Heap) : List Nat := heap.trace.filterMap HeapEvent.acquired

def freed (heap : Heap) : List Nat := heap.trace.filterMap HeapEvent.freed

def blockSize (heap : Heap) (block : Nat) : Option Nat :=
  heap.trace.findSome? (HeapEvent.sizeOf block)

def Numbered (heap : Heap) : Prop := heap.acquired = List.range heap.nextBlock

/-- The blocks that are not released yet are these, each of them once. -/
structure Holds (heap : Heap) (blocks : List Nat) : Prop where
  numbered : heap.Numbered
  ledger : ∃ held, Ledger blocks held heap.acquired heap.freed

variable {heap heap' : Heap} {blocks : List Nat}

theorem malloc_none (h : heap.malloc size = (none, heap')) :
    heap'.trace = heap.trace ∧ heap'.nextBlock = heap.nextBlock := by
  unfold malloc at h
  split at h
  · cases h
  · cases h
    exact ⟨rfl, rfl⟩

theorem malloc_some (h : heap.malloc size = (some block, heap')) :
    block = heap.nextBlock ∧ heap'.nextBlock = heap.nextBlock + 1 ∧
      heap'.trace = heap.trace ++ [.allocated block size] := by
  unfold malloc at h
  split at h
  · cases h
    exact ⟨rfl, rfl, rfl⟩
  · cases h

theorem realloc_none (h : heap.realloc old size = (none, heap')) :
    heap.malloc size = (none, heap') := by
  unfold realloc at h
  split at h
  · rename_i hm
    cases h
    exact hm
  · cases h

theorem realloc_some (h : heap.realloc old size = (some block, heap')) :
    ∃ grown, heap.malloc size = (some block, grown) ∧ heap' = grown.free old := by
  unfold realloc at h
  split at h
  · cases h
  · rename_i hm
    cases h
    exact ⟨_, hm, rfl⟩

theorem free_nextBlock (heap : Heap) (old : Option Nat) :
    (heap.free old).nextBlock = heap.nextBlock := by
  cases old with
  | none => rfl
  | some block => rfl

theorem free_trace (heap : Heap) (old : Option Nat) :
    (heap.free old).trace = heap.trace ++ (old.toList.map .released) := by
  cases old with
  | none => exact (List.append_nil _).symm
  | some block => rfl

theorem acquired_malloc (hm : heap.malloc size = (some block, heap')) :
    heap'.acquired = heap.acquired ++ [block] := by
  obtain ⟨-, -, htrace⟩ := malloc_some hm
  rw [acquired, htrace, List.filterMap_append]
  rfl

theorem freed_malloc (hm : heap.malloc size = (some block, heap')) : heap'.freed = heap.freed := by
  obtain ⟨-, -, htrace⟩ := malloc_some hm
  rw [freed, htrace, List.filterMap_append]
  exact List.append_nil _

theorem acquired_free (heap : Heap) (old : Option Nat) :
    (heap.free old).acquired = heap.acquired := by
  cases old with
  | none => rfl
  | some block =>
    rw [acquired, free_trace, List.filterMap_append]
    exact List.append_nil _

theorem freed_free (heap : Heap) (block : Nat) :
    (heap.free (some block)).freed = heap.freed ++ [block] := by
  rw [freed, free_trace, List.filterMap_append]
  rfl

section Numbered

theorem Numbered.malloc_none (h : heap.Numbered) (hm : heap.malloc size = (none, heap')) :
    heap'.Numbered := by
  obtain ⟨htrace, hnext⟩ := Heap.malloc_none hm
  rw [Numbered, acquired, htrace, hnext]
  exact h

theorem Numbered.malloc_some (h : heap.Numbered) (hm : heap.malloc size = (some block, heap')) :
    heap'.Numbered := by
  obtain ⟨hblock, hnext, -⟩ := Heap.malloc_some hm
  rw [Numbered, acquired_malloc hm, hnext, List.range_succ, hblock]
  exact congrArg (· ++ _) h

theorem Numbered.free (h : heap.Numbered) (old : Option Nat) : (heap.free old).Numbered := by
  rw [Numbered, acquired_free, free_nextBlock]
  exact h

theorem Numbered.realloc_some (h : heap.Numbered)
    (hm : heap.realloc old size = (some block, heap')) : heap'.Numbered := by
  obtain ⟨grown, hmalloc, rfl⟩ := Heap.realloc_some hm
  exact (h.malloc_some hmalloc).free old

end Numbered

section Holds

theorem Holds.perm (h : heap.Holds blocks) (hp : blocks'.Perm blocks) : heap.Holds blocks' := by
  obtain ⟨held, hledger⟩ := h.ledger
  exact ⟨h.numbered, held, hledger.transfer hp⟩

theorem Holds.record {event : HeapEvent} (h : heap.Holds blocks) (ha : event.acquired = none)
    (hf : event.freed = none) : (heap.record event).Holds blocks := by
  have hacquired : (heap.record event).acquired = heap.acquired := by
    rw [acquired, Heap.record, List.filterMap_append, List.filterMap_cons_none ha]
    exact List.append_nil _
  have hfreed : (heap.record event).freed = heap.freed := by
    rw [freed, Heap.record, List.filterMap_append, List.filterMap_cons_none hf]
    exact List.append_nil _
  constructor
  · rw [Numbered, hacquired]
    exact h.numbered
  · rw [hacquired, hfreed]
    exact h.ledger

theorem Holds.malloc_none (h : heap.Holds blocks) (hm : heap.malloc size = (none, heap')) :
    heap'.Holds blocks := by
  obtain ⟨htrace, -⟩ := Heap.malloc_none hm
  refine ⟨h.numbered.malloc_none hm, ?_⟩
  rw [acquired, freed, htrace]
  exact h.ledger

theorem Holds.malloc_some (h : heap.Holds blocks) (hm : heap.malloc size = (some block, heap')) :
    heap'.Holds (block :: blocks) := by
  obtain ⟨held, hledger⟩ := h.ledger
  obtain ⟨hblock, -⟩ := Heap.malloc_some hm
  have hfresh : block ∉ held := by
    intro hmem
    have hold := hledger.history.mem_iff.2 (List.mem_append_right _ hmem)
    rw [show heap.acquired = List.range heap.nextBlock from h.numbered, List.mem_range] at hold
    exact absurd hold (hblock ▸ Nat.lt_irrefl _)
  refine ⟨h.numbered.malloc_some hm, ?_⟩
  rw [acquired_malloc hm, freed_malloc hm]
  exact ⟨_, hledger.acquire hfresh (List.Perm.refl _)⟩

theorem Holds.free (old : Option Nat) (h : heap.Holds (old.toList ++ blocks)) :
    (heap.free old).Holds blocks := by
  refine ⟨h.numbered.free old, ?_⟩
  obtain ⟨held, hledger⟩ := h.ledger
  cases old with
  | none => exact ⟨held, hledger⟩
  | some block =>
    rw [acquired_free, freed_free]
    exact ⟨_, hledger.release (List.Perm.refl _)⟩

theorem Holds.realloc_none (h : heap.Holds blocks) (hm : heap.realloc old size = (none, heap')) :
    heap'.Holds blocks := h.malloc_none (Heap.realloc_none hm)

theorem Holds.realloc_some {old : Option Nat} (h : heap.Holds (old.toList ++ blocks))
    (hm : heap.realloc old size = (some block, heap')) : heap'.Holds (block :: blocks) := by
  obtain ⟨grown, hmalloc, rfl⟩ := Heap.realloc_some hm
  exact Holds.free old ((h.malloc_some hmalloc).perm List.perm_middle)

end Holds

section Granting

def Granting (heap : Heap) : Prop := ∀ outcome ∈ heap.outcomes, outcome = true

theorem Granting.malloc (h : heap.Granting) (size : Nat) :
    ∃ heap', heap.malloc size = (some heap.nextBlock, heap') ∧ heap'.Granting := by
  have hhead : heap.outcomes.headD true = true := by
    cases ho : heap.outcomes with
    | nil => rfl
    | cons outcome outcomes => exact h outcome (ho ▸ List.mem_cons_self)
  refine ⟨_, if_pos hhead, ?_⟩
  exact fun outcome hmem => h outcome (List.mem_of_mem_tail hmem)

theorem Granting.free (h : heap.Granting) (old : Option Nat) : (heap.free old).Granting := by
  cases old with
  | none => exact h
  | some block => exact h

theorem Granting.realloc (h : heap.Granting) (old : Option Nat) (size : Nat) :
    ∃ heap', heap.realloc old size = (some heap.nextBlock, heap') ∧ heap'.Granting := by
  obtain ⟨heap', hm, hg⟩ := h.malloc size
  refine ⟨heap'.free old, ?_, hg.free old⟩
  rw [Heap.realloc, hm]

end Granting

theorem holds_empty (outcomes : List Bool) : (⟨outcomes, 0, []⟩ : Heap).Holds [] :=
  ⟨rfl, [], Ledger.empty⟩

/-- A block that is not held any more has been released once, and nothing else has been. -/
theorem Holds.count_freed (h : heap.Holds blocks) (block : Nat) :
    heap.freed.count block = if block ∈ heap.acquired ∧ block ∉ blocks then 1 else 0 := by
  obtain ⟨held, hledger⟩ := h.ledger
  have hnodup : heap.acquired.Nodup := by
    rw [show heap.acquired = List.range heap.nextBlock from h.numbered]
    exact List.nodup_range
  have hcount := hledger.count_acquired block
  rw [hnodup.count] at hcount
  have hheld : block ∈ held → block ∈ heap.acquired := fun hmem =>
    hledger.history.mem_iff.2 (List.mem_append_right _ hmem)
  simp only [hledger.holders.mem_iff]
  by_cases hacquired : block ∈ heap.acquired
  · rw [if_pos hacquired] at hcount
    by_cases hmem : block ∈ held
    · rw [if_pos hmem] at hcount
      rw [if_neg fun hno => hno.2 hmem]
      omega
    · rw [if_neg hmem] at hcount
      rw [if_pos ⟨hacquired, hmem⟩]
      exact hcount.symm
  · rw [if_neg hacquired, if_neg fun hmem => hacquired (hheld hmem)] at hcount
    rw [if_neg fun hno => hacquired hno.1]
    exact hcount.symm

section BlockSize

theorem blockSize_malloc (h : heap.Numbered) (hm : heap.malloc size = (some block, heap')) :
    heap'.blockSize block = some size := by
  obtain ⟨rfl, -, htrace⟩ := Heap.malloc_some hm
  have hnone : heap.trace.findSome? (HeapEvent.sizeOf heap.nextBlock) = none := by
    apply List.findSome?_eq_none_iff.2
    intro event hevent
    cases event with
    | allocated other size =>
      have hold : other ∈ heap.acquired := List.mem_filterMap.2 ⟨_, hevent, rfl⟩
      rw [show heap.acquired = List.range heap.nextBlock from h, List.mem_range] at hold
      exact if_neg (Nat.ne_of_lt hold)
    | released | directoryOpened | directoryClosed => rfl
  rw [blockSize, htrace, List.findSome?_append, hnone, Option.none_or, List.findSome?_singleton]
  exact if_pos rfl

theorem mem_of_blockSize (h : heap.blockSize block = some size) :
    .allocated block size ∈ heap.trace := by
  obtain ⟨event, hevent, hsize⟩ := List.exists_of_findSome?_eq_some h
  cases event with
  | allocated other size' =>
    by_cases he : other = block
    · rw [HeapEvent.sizeOf, if_pos he] at hsize
      cases hsize
      rwa [← he]
    · rw [HeapEvent.sizeOf, if_neg he] at hsize
      cases hsize
  | released | directoryOpened | directoryClosed => cases hsize

theorem blockSize_later {later : List HeapEvent} (h : heap.blockSize block = some size)
    (ht : heap'.trace = heap.trace ++ later) : heap'.blockSize block = some size := by
  rw [blockSize] at h
  rw [blockSize, ht, List.findSome?_append, h]
  rfl

theorem blockSize_realloc (h : heap.Numbered) (hm : heap.realloc old size = (some block, heap')) :
    heap'.blockSize block = some size := by
  obtain ⟨grown, hmalloc, rfl⟩ := Heap.realloc_some hm
  exact blockSize_later (blockSize_malloc h hmalloc) (free_trace grown old)

end BlockSize

end Heap

end Httpd
