import Mathlib.Data.List.Nodup

/-!
# A queue that delivers at least once

A message a broker has accepted is delivered, perhaps many times and to several receivers,
until a receiver acknowledges it by its id; the broker may give up on a message it could not
deliver, and take it back.  Nothing is lost as long as receivers acknowledge only what has
been dealt with (`Broker.Keeps`), and what has been dealt with stays so.
-/

namespace Delivery

/-- A message under the id the broker gave it. -/
structure Message (ι β : Type) where
  id : ι
  body : β

/-- What a broker holds.  `accepted` are all messages it ever took. -/
structure Broker (ι β : Type) where
  queue : List (Message ι β)
  abandoned : List (Message ι β)
  accepted : List (Message ι β)

namespace Broker

variable {ι β : Type}

def empty : Broker ι β := ⟨[], [], []⟩

def accept (b : Broker ι β) (m : Message ι β) : Broker ι β :=
  ⟨m :: b.queue, b.abandoned, m :: b.accepted⟩

section

variable [DecidableEq ι]

/-- Messages acknowledged by their ids are gone from the queue. -/
def acknowledge (b : Broker ι β) (ids : List ι) : Broker ι β :=
  { b with queue := b.queue.filter fun m => m.id ∉ ids }

/-- The broker stops delivering a message: it was received too often, or is too old. -/
def giveUp (b : Broker ι β) (m : Message ι β) : Broker ι β :=
  { b with queue := b.queue.filter fun other => other.id ≠ m.id
           abandoned := m :: b.abandoned }

/-- A message that was given up is queued again. -/
def redrive (b : Broker ι β) (m : Message ι β) : Broker ι β :=
  { b with queue := m :: b.queue
           abandoned := b.abandoned.filter fun other => other.id ≠ m.id }

end

/-- No accepted message is lost: it is held, or has been dealt with. -/
structure Keeps (handled : β → Prop) (b : Broker ι β) : Prop where
  noLoss : ∀ m ∈ b.accepted, m ∈ b.queue ∨ m ∈ b.abandoned ∨ handled m.body
  nodup : (b.accepted.map (·.id)).Nodup
  queued : b.queue ⊆ b.accepted
  abandoned : b.abandoned ⊆ b.accepted

variable {handled handled' : β → Prop} {b : Broker ι β}

theorem keeps_empty : (empty : Broker ι β).Keeps handled where
  noLoss := fun m hm => by cases hm
  nodup := List.nodup_nil
  queued := fun m hm => hm
  abandoned := fun m hm => hm

theorem Keeps.mono (h : b.Keeps handled) (hmono : ∀ body, handled body → handled' body) :
    b.Keeps handled' :=
  ⟨fun m hm => (h.noLoss m hm).imp_right (Or.imp_right (hmono m.body)), h.nodup, h.queued,
    h.abandoned⟩

theorem Keeps.eq_of_id (h : b.Keeps handled) {m m' : Message ι β} (hm : m ∈ b.accepted)
    (hm' : m' ∈ b.accepted) (hid : m.id = m'.id) : m = m' :=
  List.inj_on_of_nodup_map h.nodup hm hm' hid

theorem Keeps.accept (h : b.Keeps handled) {m : Message ι β}
    (hfresh : m.id ∉ b.accepted.map (·.id)) : (b.accept m).Keeps handled where
  noLoss := by
    intro other hother
    rcases List.mem_cons.mp hother with rfl | hold
    · exact .inl List.mem_cons_self
    · exact (h.noLoss other hold).imp_left (List.mem_cons_of_mem _)
  nodup := List.nodup_cons.mpr ⟨hfresh, h.nodup⟩
  queued := List.cons_subset_cons _ h.queued
  abandoned := fun other hother => List.mem_cons_of_mem _ (h.abandoned hother)

section

variable [DecidableEq ι]

/-- Acknowledging what has been dealt with loses nothing. -/
theorem Keeps.acknowledge (h : b.Keeps handled) {ids : List ι}
    (hids : ∀ m ∈ b.accepted, m.id ∈ ids → handled m.body) : (b.acknowledge ids).Keeps handled where
  noLoss := by
    intro m hm
    by_cases hacked : m.id ∈ ids
    · exact .inr (.inr (hids m hm hacked))
    · exact (h.noLoss m hm).imp_left fun hqueued =>
        List.mem_filter.mpr ⟨hqueued, by simpa using hacked⟩
  nodup := h.nodup
  queued := fun m hm => h.queued (List.mem_filter.mp hm).1
  abandoned := h.abandoned

theorem Keeps.giveUp (h : b.Keeps handled) {m : Message ι β} (hm : m ∈ b.queue) :
    (b.giveUp m).Keeps handled where
  noLoss := by
    intro other hother
    by_cases hsame : other.id = m.id
    · rw [h.eq_of_id hother (h.queued hm) hsame]
      exact .inr (.inl List.mem_cons_self)
    · rcases h.noLoss other hother with hqueued | hlater
      · exact .inl (List.mem_filter.mpr ⟨hqueued, by simpa using hsame⟩)
      · exact .inr (hlater.imp_left (List.mem_cons_of_mem _))
  nodup := h.nodup
  queued := fun other hother => h.queued (List.mem_filter.mp hother).1
  abandoned := List.cons_subset.mpr ⟨h.queued hm, h.abandoned⟩

theorem Keeps.redrive (h : b.Keeps handled) {m : Message ι β} (hm : m ∈ b.abandoned) :
    (b.redrive m).Keeps handled where
  noLoss := by
    intro other hother
    by_cases hsame : other.id = m.id
    · rw [h.eq_of_id hother (h.abandoned hm) hsame]
      exact .inl List.mem_cons_self
    · rcases h.noLoss other hother with hqueued | hgone | hhandled
      · exact .inl (List.mem_cons_of_mem _ hqueued)
      · exact .inr (.inl (List.mem_filter.mpr ⟨hgone, by simpa using hsame⟩))
      · exact .inr (.inr hhandled)
  nodup := h.nodup
  queued := List.cons_subset.mpr ⟨h.abandoned hm, h.queued⟩
  abandoned := fun other hother => h.abandoned (List.mem_filter.mp hother).1

end

end Broker

end Delivery
