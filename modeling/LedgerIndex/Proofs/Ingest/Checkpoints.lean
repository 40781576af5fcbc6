import LedgerIndex.Proofs.Ingest.Reachable

/-! # Checkpoints advance by one

The checkpoints that are written for a channel are consecutive numbers, from the first block behind
the checkpoint at the beginning: none is left out, none comes twice.  The stored checkpoint is the
last of them, and the cursor of an engine stands behind it (`Deployment.checkpoints_advance`).  This
needs nothing of the ledger, of the events or of the agents. -/

namespace LedgerIndex

open MemoryStore

namespace MemoryStore

/-- The stored checkpoint of a channel. -/
def checkpoint? (store : MemoryStore) (channel : String) : Option Nat :=
  Entries.get? channel store.checkpoints

/-- The checkpoints written for a channel, oldest first. -/
def written (store : MemoryStore) (channel : String) : List Nat :=
  (store.history.filter fun entry => entry.1 = channel).map Prod.snd

theorem written_putCheckpoint_self (s : MemoryStore) (channel : String) (number : Nat) :
    (s.putCheckpoint channel number).written channel = s.written channel ++ [number] := by
  simp [written, putCheckpoint]

theorem written_putCheckpoint_of_ne (s : MemoryStore) {channel other : String}
    (h : channel ≠ other) (number : Nat) :
    (s.putCheckpoint other number).written channel = s.written channel := by
  simp [written, putCheckpoint, h.symm]

theorem nextBlock_of_checkpoint? {s : MemoryStore} {channel : String} {number : Nat}
    (h : s.checkpoint? channel = some number) : s.nextBlock channel = number + 1 := by
  unfold checkpoint? at h
  rw [nextBlock, h]

theorem checkpoint?_eq_of_nextBlock_pos {s : MemoryStore} {channel : String}
    (h : 0 < s.nextBlock channel) : s.checkpoint? channel = some (s.nextBlock channel - 1) := by
  unfold nextBlock checkpoint? at *
  split at h
  · simp at h
  · rename_i number hnumber
    rw [hnumber]
    rfl

/-- Since the store `s₀` the checkpoints of a channel have advanced by one at a time. -/
def Advanced (s₀ : MemoryStore) (channel : String) (s : MemoryStore) : Prop :=
  ∃ count, s.nextBlock channel = s₀.nextBlock channel + count ∧
    s.written channel = s₀.written channel ++ List.range' (s₀.nextBlock channel) count ∧
    (count = 0 → s.checkpoint? channel = s₀.checkpoint? channel)

theorem advanced_refl (s₀ : MemoryStore) (channel : String) : Advanced s₀ channel s₀ :=
  ⟨0, rfl, by simp, fun _ => rfl⟩

theorem Advanced.putCheckpoint {s₀ s : MemoryStore} {channel : String}
    (h : Advanced s₀ channel s) {number : Nat} (hnumber : number = s.nextBlock channel) :
    Advanced s₀ channel (s.putCheckpoint channel number) := by
  obtain ⟨count, hnext, hwritten, _⟩ := h
  refine ⟨count + 1, ?_, ?_, by omega⟩
  · rw [nextBlock_putCheckpoint_self, hnumber, hnext]
    rfl
  · rw [written_putCheckpoint_self, hwritten, hnumber, hnext, List.range'_1_concat,
      List.append_assoc]

theorem Advanced.putCheckpoint_of_ne {s₀ s : MemoryStore} {channel other : String}
    (h : Advanced s₀ channel s) (hother : channel ≠ other) (number : Nat) :
    Advanced s₀ channel (s.putCheckpoint other number) := by
  obtain ⟨count, hnext, hwritten, hzero⟩ := h
  refine ⟨count, ?_, ?_, fun hcount => ?_⟩
  · rw [nextBlock_putCheckpoint_of_ne s hother, hnext]
  · rw [written_putCheckpoint_of_ne s hother, hwritten]
  · rw [← hzero hcount]
    exact Entries.get?_put_of_ne hother ..

theorem Advanced.checkpoint?_eq {s₀ s : MemoryStore} {channel : String}
    (h : Advanced s₀ channel s) (hfresh : s₀.written channel = []) :
    s.checkpoint? channel = (s.written channel).getLast?.or (s₀.checkpoint? channel) := by
  obtain ⟨count, hnext, hwritten, hzero⟩ := h
  rw [hwritten, hfresh, List.nil_append, List.getLast?_range']
  by_cases hcount : count = 0
  · rw [if_pos hcount, Option.none_or, hzero hcount]
  · rw [if_neg hcount, Option.some_or, checkpoint?_eq_of_nextBlock_pos (by omega), hnext]

theorem written_ofSeed (seed : Option Seed) (channel : String) :
    (ofSeed seed).written channel = [] := by
  simp [written]

end MemoryStore

namespace Discipline

/-- Checkpoints advance by one, whatever the agents publish and the ledger answers. -/
def advancing (channel : String) (s₀ : MemoryStore) :
    Discipline channel (fun _ => True) (fun _ _ => True) where
  sound := Advanced s₀ channel
  placed cursor s := Advanced s₀ channel s ∧ s.Behind channel cursor
  publishing cursor _ _ s := Advanced s₀ channel s ∧ s.Behind channel (some cursor)
  sound_of_placed h := h.1
  sound_of_published h := h.1
  forget h := ⟨h.1, behind_none⟩
  genesis h hnone := ⟨h.1, behind_genesis hnone⟩
  resume h hsome _ _ _ _ := ⟨h.1, behind_resume hsome _⟩
  begin _ h _ _ := h
  accept h := h
  abandon h := h
  advance h := ⟨h.1.putCheckpoint (behind_some.mp h.2), behind_putCheckpoint _ _ _ _⟩

theorem isolated_advancing (channel : String) (s₀ : MemoryStore) :
    (advancing channel s₀).Isolated where
  accept _ _ _ h := h
  putCheckpoint hother h := ⟨h.1.putCheckpoint_of_ne hother _, h.2.putCheckpoint_of_ne hother _⟩

end Discipline

namespace Deployment

/-- **Checkpoints advance by one and never run ahead of the cursor.**  The numbers written for a
channel go on from the seed without a gap or a repetition, the stored checkpoint is the last of
them, and a cursor stands behind it. -/
theorem checkpoints_advance (ledger : MemoryLedger) (seed : Option Seed) (actions : List Action)
    (channel : String) :
    let start := Deployment.initial ledger seed
    let d := start.run actions
    (∃ count, d.store.written channel
      = List.range' (start.store.nextBlock channel) count) ∧
    d.store.checkpoint? channel
      = (d.store.written channel).getLast?.or (start.store.checkpoint? channel) ∧
    ∀ cursor, d.cursor? channel = some cursor → cursor.next = d.store.nextBlock channel := by
  intro start d
  let D := Discipline.advancing channel start.store
  have hbegin : D.Holds start := D.holds_initial ⟨advanced_refl .., behind_none⟩ ledger
  have hend : D.Holds d := hbegin.run (Discipline.isolated_advancing ..)
    (ledgerWithin_any ..) (fun _ _ _ => trivial) (.inl fun _ h => ⟨h, behind_none⟩)
  have hsound : Advanced start.store channel d.store := hend.sound
  have hfresh : start.store.written channel = [] := written_ofSeed seed channel
  refine ⟨?_, hsound.checkpoint?_eq hfresh, fun cursor hcursor => ?_⟩
  · obtain ⟨count, _, hwritten, _⟩ := hsound
    exact ⟨count, by rw [hwritten, hfresh, List.nil_append]⟩
  · exact behind_some.mp (hend.placed_cursor hcursor).2

/-- An engine that has published two blocks. -/
theorem checkpoints_advance_two_blocks :
    let start := Deployment.initial {} none
    let d := start.run (Sample.actions 2 13)
    (d.store.written "c" = [0, 1] ∧ (d.cursor? "c").map (·.next) = some 2) ∧
    (∃ count, d.store.written "c" = List.range' (start.store.nextBlock "c") count) ∧
    d.store.checkpoint? "c"
      = (d.store.written "c").getLast?.or (start.store.checkpoint? "c") ∧
    ∀ cursor, d.cursor? "c" = some cursor → cursor.next = d.store.nextBlock "c" := by
  intro start d
  exact ⟨⟨by decide +kernel, by decide +kernel⟩,
    checkpoints_advance {} none (Sample.actions 2 13) "c"⟩

end Deployment

end LedgerIndex
