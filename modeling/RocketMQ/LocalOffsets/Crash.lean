/-
  File:      RocketMQ/LocalOffsets/Crash.lean
  Subject:   Saving the broadcasting offset file, and what a crash leaves of it.

  After `save_local_offsets_with`, `write_local_offsets_at`, `save_local_offsets_at`,
  `load_local_offsets_at` and `load_local_offset_table_at` in `consumer.rs`. A save reads the table
  that is there, lays its own entries over it, copies the main file to the backup, writes a
  temporary file and renames it. Every file operation is a step, and a file that is being written
  may hold any part of its text (`torn`); the disks of the reachable states are what a crash leaves.

  * `save_crash_safe`: exactly from the disks of `KeepsBackup` every crash leaves the old table
    or the new one.
-/
import RocketMQ.Lib.Machine
import RocketMQ.LocalOffsets.Text
import RocketMQ.Push.Identity

namespace RocketMQ

/-! ## 1. Files -/

/-- What `read_to_string` gives. -/
inductive FileState where
  | absent
  /-- an I/O error, or bytes that are no text -/
  | unreadable
  | text (s : String)
  deriving DecidableEq, Repr

/-- `offsets.json` with its two companions. -/
structure Disk where
  main : FileState
  bak : FileState
  tmp : FileState
  deriving DecidableEq, Repr

/-- What is there of a text whose first `n` characters have been written, and perhaps a part of the
next one. -/
def torn (s : String) (n : Nat) (mid : Bool) : FileState :=
  match mid, s.toList[n]? with
  | true, some c =>
    if 1 < c.utf8Size then .unreadable else .text (String.ofList (s.toList.take n))
  | _, _ => .text (String.ofList (s.toList.take n))

/-- The file `load_local_offset_table_at` stumbled over, and why. -/
inductive Unreadable where
  | io (backup : Bool)
  | malformed (backup : Bool)
  deriving DecidableEq, Repr

/-- What a candidate is to `load_local_offset_table_at`. -/
inductive Candidate where
  | skipped
  | refused (why : Unreadable)
  | found (t : OffsetTable × QueueTable)

section Save

variable (flat : String → Option OffsetTable)

/-- The table a file holds. -/
def FileState.table : FileState → Option OffsetTable
  | text s => parseLocalOffsetsText flat s
  | _ => none

/-- `load_local_offsets_at`: the main file, then the backup, then nothing. -/
def loadLocalOffsetsAt (d : Disk) : OffsetTable :=
  match d.main.table flat with
  | some t => t
  | none => (d.bak.table flat).getD ∅

/-- One round of the loop of `load_local_offset_table_at`. -/
def candidate (backup : Bool) : FileState → Candidate
  | .absent => .skipped
  | .unreadable => .refused (.io backup)
  | .text s =>
    if (Text.trim s).isEmpty then .skipped
    else
      match parseLocalOffsetsWithQueues flat s with
      | some t => .found t
      | none => .refused (.malformed backup)

def loadLocalOffsetTableAt (d : Disk) : Except Unreadable (OffsetTable × QueueTable) :=
  match candidate flat false d.main, candidate flat true d.bak with
  | .found t, _ => .ok t
  | _, .found t => .ok t
  | _, .refused why => .error why
  | .refused why, .skipped => .error why
  | .skipped, .skipped => .ok (∅, ∅)

/-! ## 2. The save -/

/-- What `save_local_offsets_with` lays over the table of the file. -/
def saveOverlay (consumeOffsets : OffsetTable) (mqMap : QueueTable) (extra : List Revoked)
    (t : OffsetTable × QueueTable) : OffsetTable × QueueTable :=
  mergeRetiredOffsets (consumeOffsets.foldl (fun items k off => items.insert k off) t.1)
    (mqMap.foldl (fun queues k mq => queues.insert k mq) t.2) extra

/-- What `write_local_offsets_at` lays over it. -/
def writeOverlay (entries : List (MessageQueue × Int)) (t : OffsetTable × QueueTable) :
    OffsetTable × QueueTable :=
  entries.foldl (fun (items, queues) e =>
    (items.insert (mqKey e.1) e.2, queues.insert (mqKey e.1) e.1)) t

/-- Where a save stands. -/
inductive SavePc where
  | start
  /-- the main file has been read and is to be copied -/
  | backup (prev new : String)
  | backingUp (prev new : String)
  | temp (new : String)
  | writing (new : String)
  | written (new : String)
  | done
  | failed
  deriving DecidableEq, Repr

structure SaveState where
  disk : Disk
  pc : SavePc
  deriving DecidableEq, Repr

/-- What a save meets. -/
inductive SaveAct where
  | load
  | openFile (ok : Bool)
  /-- so much of the text has reached the disk -/
  | put (n : Nat) (mid : Bool)
  | close
  | fail
  | rename (ok : Bool)
  deriving DecidableEq, Repr

variable (overlay : OffsetTable × QueueTable → OffsetTable × QueueTable)

/-- The text a save writes over a loaded table. -/
def newText (t : OffsetTable × QueueTable) : String :=
  buildLocalOffsetsJson (overlay t).1 (overlay t).2

/-- **One step of a save.** -/
def saveStep (s : SaveState) :
    SaveAct → Option SaveState
  | .load =>
    match s.pc, loadLocalOffsetTableAt flat s.disk with
    | .start, .error _ => some { s with pc := .failed }
    | .start, .ok t =>
      match s.disk.main with
      | .text prev =>
        if prev.isEmpty then some { s with pc := .temp (newText overlay t) }
        else some { s with pc := .backup prev (newText overlay t) }
      | _ => some { s with pc := .temp (newText overlay t) }
    | _, _ => none
  | .openFile ok =>
    match s.pc with
    | .backup prev new =>
      -- an error of the copy is ignored
      some (if ok then ⟨{ s.disk with bak := torn prev 0 false }, .backingUp prev new⟩
        else { s with pc := .temp new })
    | .temp new =>
      some (if ok then ⟨{ s.disk with tmp := torn new 0 false }, .writing new⟩
        else { s with pc := .failed })
    | _ => none
  | .put n mid =>
    match s.pc with
    | .backingUp prev _ => some { s with disk := { s.disk with bak := torn prev n mid } }
    | .writing new => some { s with disk := { s.disk with tmp := torn new n mid } }
    | _ => none
  | .close =>
    match s.pc with
    | .backingUp prev new =>
      some ⟨{ s.disk with bak := torn prev prev.toList.length false }, .temp new⟩
    | .writing new => some ⟨{ s.disk with tmp := .text new }, .written new⟩
    | _ => none
  | .fail =>
    match s.pc with
    | .backingUp _ new => some { s with pc := .temp new }
    | .writing _ => some { s with pc := .failed }
    | _ => none
  | .rename ok =>
    match s.pc with
    | .written _ =>
      some (if ok then ⟨{ s.disk with main := s.disk.tmp, tmp := .absent }, .done⟩
        else { s with pc := .failed })
    | _ => none

/-- The disk a crash of a save can leave. -/
def Leaves (d d' : Disk) : Prop :=
  ∃ s, Machine.Reach (saveStep flat overlay) (fun _ _ => True) ⟨d, .start⟩ s ∧ s.disk = d'

/-- It is a save of this table: the text it writes, if it gets to write one, holds it. -/
def Saves (d : Disk) (t' : OffsetTable) : Prop :=
  ∀ t, loadLocalOffsetTableAt flat d = .ok t →
    parseLocalOffsetsText flat (newText overlay t) = some t'

/-- **The disks on which the copy cannot cost the only table there is.** Where the main file is a
text that is not empty and holds no table while the backup holds one, every part of that text has to
stand for the old table or the new one. -/
def KeepsBackup (d : Disk) (t' : OffsetTable) : Prop :=
  ∀ prev, d.main = .text prev → prev.isEmpty = false → d.main.table flat = none →
    (d.bak.table flat).isSome = true → ∀ n mid,
      ((torn prev n mid).table flat).getD ∅ = loadLocalOffsetsAt flat d ∨
        ((torn prev n mid).table flat).getD ∅ = t'

/-! ## 3. What a crash leaves -/

section Proofs

variable {flat} {overlay : OffsetTable × QueueTable → OffsetTable × QueueTable} {d : Disk}
  {t' : OffsetTable}

variable {s prev : String} {backup : Bool} {t : OffsetTable × QueueTable}

theorem torn_text {r : String} {n : Nat} {mid : Bool} (h : torn s n mid = .text r) :
    ∀ c ∈ r.toList, c ∈ s.toList := by
  have htake : ∀ c ∈ (String.ofList (s.toList.take n)).toList, c ∈ s.toList := by
    intro c hc
    rw [String.toList_ofList] at hc
    exact List.mem_of_mem_take hc
  unfold torn at h
  split at h
  · split at h
    · cases h
    · cases h
      exact htake
  · cases h
    exact htake

theorem torn_blank (hs : (Text.trim s).isEmpty = true) (n : Nat) (mid : Bool) :
    (torn s n mid).table flat = none := by
  cases hf : torn s n mid with
  | absent | unreadable => rfl
  | text r =>
    have hr : (Text.trim r).isEmpty = true :=
      Text.trim_isEmpty_iff.mpr fun c hc => Text.trim_isEmpty_iff.mp hs c (torn_text hf c hc)
    exact if_pos hr

theorem candidate_found_iff {f : FileState} :
    (∃ t, candidate flat backup f = .found t) ↔ (f.table flat).isSome = true := by
  cases f with
  | absent | unreadable => simp [candidate, FileState.table]
  | text s =>
    simp only [candidate, FileState.table, parseLocalOffsetsText_eq]
    by_cases hblank : (Text.trim s).isEmpty = true
    · have hnone : parseLocalOffsetsWithQueues flat s = none := by
        exact if_pos hblank
      simp [hblank, hnone]
    · rw [if_neg hblank]
      cases parseLocalOffsetsWithQueues flat s with
      | none | some => simp

theorem candidate_skipped (h : candidate flat backup (.text s) = .skipped) :
    (Text.trim s).isEmpty = true := by
  simp only [candidate] at h
  split at h
  · rename_i hblank
    exact hblank
  · split at h <;> cases h

theorem load_ok_cases (h : loadLocalOffsetTableAt flat d = .ok t) (hmain : d.main = .text prev)
    (hnone : d.main.table flat = none) :
    (d.bak.table flat).isSome = true ∨ (Text.trim prev).isEmpty = true := by
  have hfound : ∀ t, candidate flat false d.main ≠ .found t := by
    intro t ht
    have hsome := candidate_found_iff.mp ⟨t, ht⟩
    rw [hnone] at hsome
    cases hsome
  unfold loadLocalOffsetTableAt at h
  split at h
  · rename_i t₀ hm
    exact absurd hm (hfound t₀)
  · rename_i t₀ hb _
    exact .inl (candidate_found_iff.mp ⟨t₀, hb⟩)
  · cases h
  · cases h
  · rename_i hm _
    rw [hmain] at hm
    exact .inr (candidate_skipped hm)

theorem load_ok_of_backup (h : (d.bak.table flat).isSome = true) :
    ∃ t, loadLocalOffsetTableAt flat d = .ok t := by
  obtain ⟨t, ht⟩ := candidate_found_iff.mpr h
  unfold loadLocalOffsetTableAt
  rw [ht]
  cases candidate flat false d.main with
  | found t₀ => exact ⟨t₀, rfl⟩
  | skipped | refused => exact ⟨t, rfl⟩

/-- Up to the rename: the main file as it was, the backup as it was or a part of the main file. -/
def Kept (flat : String → Option OffsetTable) (d d' : Disk) : Prop :=
  d'.main = d.main ∧ (d'.bak = d.bak ∨ ∃ prev n mid t, d.main = .text prev ∧
    prev.isEmpty = false ∧ loadLocalOffsetTableAt flat d = .ok t ∧ d'.bak = torn prev n mid)

/-- **A disk that is kept loads as the old table or the new one.** -/
theorem Kept.load {d' : Disk} (hk : KeepsBackup flat d t') (h : Kept flat d d') :
    loadLocalOffsetsAt flat d' = loadLocalOffsetsAt flat d ∨ loadLocalOffsetsAt flat d' = t' := by
  obtain ⟨hmain, hbak | ⟨prev, n, mid, t, hprev, hne, hok, hbak⟩⟩ := h
  · left
    unfold loadLocalOffsetsAt
    rw [hmain, hbak]
  · cases htable : d.main.table flat with
    | some t₀ =>
      left
      unfold loadLocalOffsetsAt
      rw [hmain, htable]
    | none =>
      have hload : loadLocalOffsetsAt flat d' = ((torn prev n mid).table flat).getD ∅ := by
        unfold loadLocalOffsetsAt
        rw [hmain, htable, hbak]
      rw [hload]
      rcases load_ok_cases hok hprev htable with hsome | hblank
      · exact hk prev hprev hne htable hsome n mid
      · -- a blank main file: the copy holds no table, and there was none
        cases hold : d.bak.table flat with
        | some t₀ =>
          exact hk prev hprev hne htable (by rw [hold]; rfl) n mid
        | none =>
          left
          unfold loadLocalOffsetsAt
          rw [torn_blank hblank, htable, hold]

/-- The text to be written holds the table on the disk, with the changes of the save. -/
abbrev Merges (flat : String → Option OffsetTable)
    (overlay : OffsetTable × QueueTable → OffsetTable × QueueTable) (d : Disk) (new : String) : Prop :=
  ∃ t, loadLocalOffsetTableAt flat d = .ok t ∧ new = newText overlay t

/-- Where a save can be, with the disk it has made. -/
def SaveInv (flat : String → Option OffsetTable)
    (overlay : OffsetTable × QueueTable → OffsetTable × QueueTable) (d : Disk) (s : SaveState) :
    Prop :=
  match s.pc with
  | .start => s.disk = d
  | .backup prev new => s.disk = d ∧ d.main = .text prev ∧ prev.isEmpty = false ∧
      Merges flat overlay d new
  | .backingUp prev new => Kept flat d s.disk ∧ d.main = .text prev ∧ prev.isEmpty = false ∧
      Merges flat overlay d new
  | .temp new => Kept flat d s.disk ∧ Merges flat overlay d new
  | .writing new => Kept flat d s.disk ∧ Merges flat overlay d new
  | .written new => Kept flat d s.disk ∧ s.disk.tmp = .text new ∧ Merges flat overlay d new
  | .done => ∃ t, loadLocalOffsetTableAt flat d = .ok t ∧ s.disk.main = .text (newText overlay t)
  | .failed => Kept flat d s.disk

theorem kept_refl : Kept flat d d := ⟨rfl, .inl rfl⟩

theorem SaveInv.step {s s' : SaveState} {a : SaveAct} (h : SaveInv flat overlay d s)
    (hs : saveStep flat overlay s a = some s') : SaveInv flat overlay d s' := by
  obtain ⟨disk, pc⟩ := s
  cases a with
  | load =>
    cases pc with
    | start =>
      have hd : disk = d := h
      subst hd
      simp only [saveStep] at hs
      cases hload : loadLocalOffsetTableAt flat disk with
      | error why =>
        rw [hload] at hs
        cases hs
        exact kept_refl
      | ok t =>
        rw [hload] at hs
        dsimp only at hs
        split at hs
        · rename_i prev hmain
          split at hs
          · cases hs
            exact ⟨kept_refl, t, hload, rfl⟩
          · rename_i hne
            cases hs
            exact ⟨rfl, hmain, Bool.eq_false_iff.mpr hne, t, hload, rfl⟩
        · cases hs
          exact ⟨kept_refl, t, hload, rfl⟩
    | _ => simp [saveStep] at hs
  | openFile ok =>
    cases pc with
    | backup prev new =>
      obtain ⟨hd, hprev, hne, t, ht, hnew⟩ := h
      subst hd
      cases ok with
      | true =>
        cases hs
        exact ⟨⟨rfl, .inr ⟨prev, 0, false, t, hprev, hne, ht, rfl⟩⟩, hprev, hne, t, ht, hnew⟩
      | false =>
        cases hs
        exact ⟨kept_refl, t, ht, hnew⟩
    | temp new =>
      obtain ⟨hk, hnew⟩ := h
      cases ok with
      | true =>
        cases hs
        exact ⟨hk, hnew⟩
      | false =>
        cases hs
        exact hk
    | _ => simp [saveStep] at hs
  | put n mid =>
    cases pc with
    | backingUp prev new =>
      obtain ⟨hk, hprev, hne, t, ht, hnew⟩ := h
      cases hs
      exact ⟨⟨hk.1, .inr ⟨prev, n, mid, t, hprev, hne, ht, rfl⟩⟩, hprev, hne, t, ht, hnew⟩
    | writing new =>
      cases hs
      exact h
    | _ => simp [saveStep] at hs
  | close =>
    cases pc with
    | backingUp prev new =>
      obtain ⟨hk, hprev, hne, t, ht, hnew⟩ := h
      cases hs
      exact ⟨⟨hk.1, .inr ⟨prev, _, false, t, hprev, hne, ht, rfl⟩⟩, t, ht, hnew⟩
    | writing new =>
      cases hs
      exact ⟨h.1, rfl, h.2⟩
    | _ => simp [saveStep] at hs
  | fail =>
    cases pc with
    | backingUp prev new =>
      cases hs
      exact ⟨h.1, h.2.2.2⟩
    | writing new =>
      cases hs
      exact h.1
    | _ => simp [saveStep] at hs
  | rename ok =>
    cases pc with
    | written new =>
      obtain ⟨hk, htmp, t, ht, hnew⟩ := h
      cases ok with
      | true =>
        cases hs
        exact ⟨t, ht, htmp.trans (congrArg FileState.text hnew)⟩
      | false =>
        cases hs
        exact hk
    | _ => simp [saveStep] at hs

theorem SaveInv.load {s : SaveState} (hk : KeepsBackup flat d t') (hnew : Saves flat overlay d t')
    (h : SaveInv flat overlay d s) :
    loadLocalOffsetsAt flat s.disk = loadLocalOffsetsAt flat d ∨
      loadLocalOffsetsAt flat s.disk = t' := by
  obtain ⟨disk, pc⟩ := s
  cases pc with
  | start => exact .inl (congrArg (loadLocalOffsetsAt flat) h)
  | backup prev new => exact .inl (congrArg (loadLocalOffsetsAt flat) h.1)
  | backingUp | temp | writing | written => exact h.1.load hk
  | done =>
    obtain ⟨t, ht, hmain⟩ := h
    right
    have htable : disk.main.table flat = some t' := by
      rw [hmain]
      exact hnew t ht
    unfold loadLocalOffsetsAt
    rw [htable]
  | failed => exact Kept.load hk h

theorem leaves_torn (overlay : OffsetTable × QueueTable → OffsetTable × QueueTable)
    (hmain : d.main = .text prev) (hne : prev.isEmpty = false)
    (hok : loadLocalOffsetTableAt flat d = .ok t) (n : Nat) (mid : Bool) :
    Leaves flat overlay d { d with bak := torn prev n mid } := by
  have hload : saveStep flat overlay ⟨d, .start⟩ .load
      = some ⟨d, .backup prev (newText overlay t)⟩ := by
    simp [saveStep, hok, hmain, hne]
  have hstart : Machine.Reach (saveStep flat overlay) (fun _ _ => True) ⟨d, .start⟩
      ⟨d, .backup prev (newText overlay t)⟩ := .next .start trivial hload
  have hopen := Machine.Reach.next (a := .openFile true) hstart trivial rfl
  exact ⟨_, .next (a := .put n mid) hopen trivial rfl, rfl⟩

end Proofs

/-- **Crash safety of the offset file.** A save of `t'` leaves at every moment a disk that loads as
the old table or as `t'`, exactly on the disks that keep their backup. -/
theorem save_crash_safe {flat : String → Option OffsetTable}
    {overlay : OffsetTable × QueueTable → OffsetTable × QueueTable} {d : Disk} {t' : OffsetTable}
    (hnew : Saves flat overlay d t') :
    (∀ d', Leaves flat overlay d d' → loadLocalOffsetsAt flat d' = loadLocalOffsetsAt flat d ∨
      loadLocalOffsetsAt flat d' = t') ↔ KeepsBackup flat d t' := by
  constructor
  · intro h prev hmain hne hnone hsome n mid
    obtain ⟨t, ht⟩ := load_ok_of_backup hsome
    have hleft := h _ (leaves_torn overlay hmain hne ht n mid)
    have hload : loadLocalOffsetsAt flat { d with bak := torn prev n mid }
        = ((torn prev n mid).table flat).getD ∅ := by
      unfold loadLocalOffsetsAt
      rw [hnone]
    rwa [hload] at hleft
  · intro hk d' hd'
    obtain ⟨s, hreach, rfl⟩ := hd'
    have hstart : SaveInv flat overlay d ⟨d, .start⟩ := rfl
    have hinv : SaveInv flat overlay d s := hreach.invariant hstart fun _ _ _ h _ hs => h.step hs
    exact hinv.load hk hnew

end Save

namespace Script

/-- A JSON library that reads no flat table. -/
def noFlat : String → Option OffsetTable := fun _ => none

def localQueue : MessageQueue := ⟨"T", "b", 0⟩

/-- The file of a consumer that has got to this offset. -/
def offsetFile (off : Int) : String := newText (writeOverlay [(localQueue, off)]) (∅, ∅)

/-- The table of that file. -/
def offsetTable (off : Int) : OffsetTable := (∅ : OffsetTable).insert "Tb0" off

/-- A main file, and no backup yet. -/
def healthyDisk : Disk := ⟨.text (offsetFile 7), .absent, .absent⟩

/-- A main file that was cut short by other means, and the backup it left. -/
def cutDisk : Disk := ⟨.text "\x7b\"offsetTable\":", .text (offsetFile 7), .absent⟩

end Script

open Script

/-- Saving 9 over 7. -/
theorem save_crash_safe_healthy :
    Saves noFlat (writeOverlay [(localQueue, 9)]) healthyDisk
        (offsetTable 9) ∧
      loadLocalOffsetsAt noFlat healthyDisk = offsetTable 7 ∧
      ∀ d', Leaves noFlat (writeOverlay [(localQueue, 9)]) healthyDisk d' →
        loadLocalOffsetsAt noFlat d' =
            loadLocalOffsetsAt noFlat healthyDisk ∨
          loadLocalOffsetsAt noFlat d' = offsetTable 9 := by
  have hnew : Saves noFlat (writeOverlay [(localQueue, 9)]) healthyDisk
      (offsetTable 9) := by
    intro t ht
    have hload : loadLocalOffsetTableAt noFlat healthyDisk =
        .ok (offsetTable 7, (∅ : QueueTable).insert "Tb0" localQueue) := rfl
    cases hload.symm.trans ht
    rfl
  refine ⟨hnew, rfl, (save_crash_safe hnew).mpr ?_⟩
  intro prev _ _ hnone
  have hsome : (healthyDisk.main.table noFlat).isSome = true := by decide
  rw [hnone] at hsome
  cases hsome

/-- **The copy costs the only table.** The main file is cut, the backup holds 7 and loading finds
it; the save copies the cut file over the backup, and a crash before the rename leaves neither 7 nor
9. -/
theorem save_loses_backup :
    ∃ d', Leaves noFlat (writeOverlay [(localQueue, 9)]) cutDisk d' ∧
      Saves noFlat (writeOverlay [(localQueue, 9)]) cutDisk
        (offsetTable 9) ∧
      (loadLocalOffsetsAt noFlat cutDisk)["Tb0"]? = some 7 ∧
      (loadLocalOffsetsAt noFlat d')["Tb0"]? = none := by
  have hmeets : Machine.Meets
      (saveStep noFlat (writeOverlay [(localQueue, 9)])) (fun _ _ => True)
      ⟨cutDisk, .start⟩ [.load, .openFile true, .close] := by decide
  refine ⟨_, ⟨_, hmeets.reach_after, rfl⟩, ?_, by decide, by decide⟩
  intro t ht
  have hload : loadLocalOffsetTableAt noFlat cutDisk =
      .ok (offsetTable 7, (∅ : QueueTable).insert "Tb0" localQueue) := rfl
  cases hload.symm.trans ht
  rfl

end RocketMQ
