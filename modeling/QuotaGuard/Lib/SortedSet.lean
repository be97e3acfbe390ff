import Mathlib.Data.Finset.Card
import Mathlib.Data.Finset.Max
import Mathlib.Tactic.Basic

/-!
# Sorted sets

A set of members, each carrying one score. The representation is the finite set of its
(member, score) pairs, so two sorted sets are equal exactly when they hold the same members with the
same scores, in whatever order they were built. That a member has one score is a field of the
structure.
-/

/-- A finite set of members with one score each. -/
@[ext] structure SortedSet (α β : Type*) where
  entries : Finset (α × β)
  unique : ∀ p ∈ entries, ∀ q ∈ entries, p.1 = q.1 → p = q

namespace SortedSet

variable {α β : Type*}

instance [DecidableEq α] [DecidableEq β] : DecidableEq (SortedSet α β) := fun s t =>
  decidable_of_iff (s.entries = t.entries) SortedSet.ext_iff.symm

instance : EmptyCollection (SortedSet α β) := ⟨∅, by simp⟩

/-- The number of members. -/
def card (s : SortedSet α β) : Nat := s.entries.card

@[simp] theorem entries_empty : (∅ : SortedSet α β).entries = ∅ := rfl

@[simp] theorem card_empty : (∅ : SortedSet α β).card = 0 := rfl

theorem eq_empty_iff {s : SortedSet α β} : s = ∅ ↔ s.entries = ∅ := by
  rw [SortedSet.ext_iff, entries_empty]

theorem card_le_card {s t : SortedSet α β} (h : s.entries ⊆ t.entries) : s.card ≤ t.card :=
  Finset.card_le_card h

/-- A part of a set that misses a member of it is smaller. -/
theorem card_lt_card {s t : SortedSet α β} (h : s.entries ⊆ t.entries) {p : α × β}
    (hp : p ∈ t.entries) (hmissing : p ∉ s.entries) : s.card < t.card :=
  Finset.card_lt_card ⟨h, fun hback => hmissing (hback hp)⟩

section Score

variable [LinearOrder β]

/-- Drop every member whose score is below the cutoff. -/
def removeBelow (cutoff : β) (s : SortedSet α β) : SortedSet α β where
  entries := s.entries.filter fun p => cutoff ≤ p.2
  unique := fun p hp q hq => s.unique p (Finset.mem_of_mem_filter p hp) q
    (Finset.mem_of_mem_filter q hq)

/-- The lowest score of the set. -/
def minScore (s : SortedSet α β) : Option β :=
  if h : (s.entries.image Prod.snd).Nonempty then some ((s.entries.image Prod.snd).min' h) else none

@[simp] theorem mem_removeBelow {cutoff : β} {s : SortedSet α β} {p : α × β} :
    p ∈ (s.removeBelow cutoff).entries ↔ p ∈ s.entries ∧ cutoff ≤ p.2 :=
  Finset.mem_filter

@[simp] theorem removeBelow_empty (cutoff : β) : (∅ : SortedSet α β).removeBelow cutoff = ∅ :=
  SortedSet.ext (Finset.filter_empty _)

theorem card_removeBelow_le (cutoff : β) (s : SortedSet α β) :
    (s.removeBelow cutoff).card ≤ s.card :=
  Finset.card_filter_le _ _

/-- A later cutoff leaves no more. -/
theorem card_removeBelow_anti {low high : β} (hle : low ≤ high) (s : SortedSet α β) :
    (s.removeBelow high).card ≤ (s.removeBelow low).card := by
  apply card_le_card
  intro p hp
  rw [mem_removeBelow] at hp ⊢
  exact ⟨hp.1, hle.trans hp.2⟩

/-- A later cutoff makes an earlier one invisible. -/
theorem removeBelow_removeBelow {low high : β} (hle : low ≤ high) (s : SortedSet α β) :
    (s.removeBelow low).removeBelow high = s.removeBelow high := by
  ext p
  simp only [mem_removeBelow]
  exact ⟨fun h => ⟨h.1.1, h.2⟩, fun h => ⟨⟨h.1, hle.trans h.2⟩, h.2⟩⟩

theorem removeBelow_eq_empty {cutoff : β} {s : SortedSet α β}
    (h : ∀ p ∈ s.entries, p.2 < cutoff) : s.removeBelow cutoff = ∅ := by
  rw [eq_empty_iff]
  apply Finset.filter_eq_empty_iff.mpr
  intro p hp
  exact not_le.mpr (h p hp)

theorem minScore_eq_none {s : SortedSet α β} : s.minScore = none ↔ s = ∅ := by
  unfold minScore
  split
  · rename_i hne
    simp only [reduceCtorEq, false_iff]
    rintro rfl
    simp at hne
  · rename_i hne
    rw [eq_empty_iff]
    simpa using hne

theorem mem_of_minScore {s : SortedSet α β} {lowest : β} (h : s.minScore = some lowest) :
    ∃ p ∈ s.entries, p.2 = lowest := by
  unfold minScore at h
  split at h
  · rename_i hne
    rw [Option.some.injEq] at h
    obtain ⟨p, hp, hscore⟩ := Finset.mem_image.mp (h ▸ Finset.min'_mem _ hne)
    exact ⟨p, hp, hscore⟩
  · cases h

theorem minScore_le {s : SortedSet α β} {lowest : β} (h : s.minScore = some lowest) {p : α × β}
    (hp : p ∈ s.entries) : lowest ≤ p.2 := by
  unfold minScore at h
  split at h
  · rw [Option.some.injEq] at h
    rw [← h]
    exact Finset.min'_le _ _ (Finset.mem_image_of_mem Prod.snd hp)
  · cases h

theorem removeBelow_eq_self {cutoff : β} {s : SortedSet α β} (h : ∀ p ∈ s.entries, cutoff ≤ p.2) :
    s.removeBelow cutoff = s :=
  SortedSet.ext (Finset.filter_true_of_mem h)

end Score

section Insert

variable [DecidableEq α] [DecidableEq β]

/-- Add a member, or move it to a new score. -/
def insert (member : α) (score : β) (s : SortedSet α β) : SortedSet α β where
  entries := Insert.insert (member, score) (s.entries.filter fun p => p.1 ≠ member)
  unique := by
    intro p hp q hq heq
    simp only [Finset.mem_insert, Finset.mem_filter] at hp hq
    rcases hp with rfl | ⟨hp, hpne⟩ <;> rcases hq with rfl | ⟨hq, hqne⟩
    · rfl
    · exact absurd heq.symm hqne
    · exact absurd heq hpne
    · exact s.unique p hp q hq heq

@[simp] theorem mem_insert {member : α} {score : β} {s : SortedSet α β} {p : α × β} :
    p ∈ (s.insert member score).entries ↔ p = (member, score) ∨ p ∈ s.entries ∧ p.1 ≠ member := by
  simp only [insert, Finset.mem_insert, Finset.mem_filter]

theorem card_insert_le (member : α) (score : β) (s : SortedSet α β) :
    (s.insert member score).card ≤ s.card + 1 := by
  refine (Finset.card_insert_le _ _).trans ?_
  exact Nat.add_le_add_right (Finset.card_filter_le _ _) 1

/-- A member the set does not hold yet adds one to its cardinality. -/
theorem card_insert_of_fresh {member : α} {score : β} {s : SortedSet α β}
    (hfresh : ∀ p ∈ s.entries, p.1 ≠ member) : (s.insert member score).card = s.card + 1 := by
  have hfilter : (s.entries.filter fun p => p.1 ≠ member) = s.entries :=
    Finset.filter_true_of_mem hfresh
  have hnot : (member, score) ∉ s.entries := fun hmem => hfresh _ hmem rfl
  simp only [card, insert, hfilter, Finset.card_insert_of_notMem hnot]

end Insert

/-- An insertion at or above the cutoff commutes with the removal below it. -/
theorem removeBelow_insert [DecidableEq α] [LinearOrder β] {cutoff score : β} (hle : cutoff ≤ score)
    (member : α) (s : SortedSet α β) :
    (s.insert member score).removeBelow cutoff = (s.removeBelow cutoff).insert member score := by
  ext p
  simp only [mem_removeBelow, mem_insert]
  constructor
  · rintro ⟨rfl | ⟨hp, hne⟩, hcut⟩
    · exact Or.inl rfl
    · exact Or.inr ⟨⟨hp, hcut⟩, hne⟩
  · rintro (rfl | ⟨⟨hp, hcut⟩, hne⟩)
    · exact ⟨Or.inl rfl, hle⟩
    · exact ⟨Or.inr ⟨hp, hne⟩, hcut⟩

end SortedSet
