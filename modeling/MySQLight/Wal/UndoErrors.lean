import MySQLight.Effect.Keeps
import MySQLight.Wal.Interrupted

/-!
Recovery when writes fail.

`Recover` is given a `PageWriter`, of which it knows only that a write may
fail, and here it is any such writer. The result of the undo pass is
dropped, so a before-image that could not be written does not keep the log
from being emptied.
-/

namespace MySQLight.Wal

open MySQLight.Data MySQLight.Effect MySQLight.Storage Fallible

namespace PageWriter

variable {σ : Type} (writer : PageWriter σ)

/-- Read the log, as `Recover` does, and write all after-images. -/
def redoing : Fallible σ Err (List Record) := do
  let _ ← writer.onDisk Disk.readLog
  let records ← writer.onDisk Disk.readLog
  writer.writePages (redoWrites records)
  return records

/-- Then write the before-images of the losers, from the last one to the
first. -/
def undoing : Fallible σ Err Unit := do
  let records ← writer.redoing
  writer.writePages (undoWrites (collectActive records ∅) records.reverse)

/-! ### The log -/

/-- The log has not changed. -/
def SameLog (s s' : σ) : Prop := (writer.disk s').log = (writer.disk s).log

instance : Std.Refl writer.SameLog := ⟨fun _ => rfl⟩

instance : IsTrans σ writer.SameLog := ⟨fun _ _ _ h h' => h'.trans h⟩

theorem sameLog_readLog : Keeps writer.SameLog (writer.onDisk Disk.readLog) := by
  intro s
  rw [SameLog, onDisk, run_zoom, writer.disk_setDisk]
  cases hfault : (writer.disk s).faults (writer.disk s).clock <;>
    simp [Disk.readLog, run_bind, hfault]

theorem sameLog_sync : Keeps writer.SameLog (writer.onDisk Disk.sync) := by
  intro s
  rw [SameLog, onDisk, run_zoom, writer.disk_setDisk]
  cases hfault : (writer.disk s).faults (writer.disk s).clock <;>
    simp [Disk.sync, run_bind, hfault]

theorem sameLog_writePages (ws : List (Nat × Bytes)) :
    Keeps writer.SameLog (writer.writePages ws) :=
  .forEach (fun w s => writer.log_writePage w.1 w.2 s) ws

theorem sameLog_redoing : Keeps writer.SameLog writer.redoing :=
  .bind writer.sameLog_readLog fun _ => .bind writer.sameLog_readLog fun records =>
    .bind (writer.sameLog_writePages (redoWrites records)) fun _ => .pure records

theorem sameLog_undoing : Keeps writer.SameLog writer.undoing :=
  .bind writer.sameLog_redoing fun _ => writer.sameLog_writePages _

variable {records : List Record}

theorem readLog_eq_ok {s s' : σ} (h : (writer.onDisk Disk.readLog).run s = (.ok records, s')) :
    records = (writer.disk s).log := by
  rw [onDisk, run_zoom] at h
  cases hfault : (writer.disk s).faults (writer.disk s).clock with
  | true =>
    simp [Disk.readLog, run_bind, hfault] at h
  | false =>
    simp only [Disk.readLog, run_bind, run_get, run_set, hfault,
      Bool.false_eq_true, if_false] at h
    cases h
    rfl

theorem redoing_eq_ok {s s' : σ} (h : writer.redoing.run s = (.ok records, s')) :
    records = (writer.disk s).log := by
  obtain ⟨_, s₁, hread, h⟩ := run_bind_eq_ok.mp h
  obtain ⟨records', s₂, hread', h⟩ := run_bind_eq_ok.mp h
  obtain ⟨_, s₃, -, h⟩ := run_bind_eq_ok.mp h
  cases h
  have hsame := writer.sameLog_readLog s
  rw [hread] at hsame
  rw [writer.readLog_eq_ok hread', hsame]

/-! ### Errors -/

/-- What `Recover` does behind the redo pass. -/
def finish (wal : WAL) (records : List Record) : Fallible σ Err Unit := do
  tryCatch (writer.undoPass records (collectActive records ∅) wal) fun _ => pure ()
  writer.onDisk (Disk.write .truncate)
  writer.onDisk Disk.sync

/-- `Recover` up to the redo pass, and behind it. -/
theorem recover_run (s : σ) :
    (∃ e s', writer.redoing.run s = (.error e, s') ∧ writer.recover.run s = (.error e, s')) ∨
      ∃ wal records s', writer.redoing.run s = (.ok records, s') ∧
        writer.recover.run s = (writer.finish wal records).run s' := by
  rw [redoing, recover]
  rcases hread : (writer.onDisk Disk.readLog).run s with ⟨e | log, s₁⟩
  · refine .inl ⟨e, s₁, ?_, ?_⟩ <;> rw [run_bind_of_error hread]
  rw [run_bind_of_ok hread, run_bind_of_ok hread]
  rcases hread' : (writer.onDisk Disk.readLog).run s₁ with ⟨e | records, s₂⟩
  · refine .inl ⟨e, s₂, ?_, ?_⟩ <;> rw [run_bind_of_error hread']
  rw [run_bind_of_ok hread', run_bind_of_ok hread', analysisPass_eq,
    Fallible.bind_assoc]
  rcases hredo : (writer.writePages (redoWrites records)).run s₂ with ⟨e | u, s₃⟩
  · refine .inl ⟨e, s₃, ?_, ?_⟩ <;> rw [run_bind_of_error hredo]
  · refine .inr ⟨WAL.open log, records, s₃, ?_, ?_⟩
    · rw [run_bind_of_ok hredo, run_pure]
    · rw [run_bind_of_ok hredo]
      rfl

/-- A before-image that could not be written: `Recover` goes on to empty the
log from there. -/
theorem finish_of_undo_error {wal : WAL} {s s' : σ} {e : Err}
    (h : (writer.writePages (undoWrites (collectActive records ∅) records.reverse)).run s =
      (.error e, s')) :
    (writer.finish wal records).run s = (do
      writer.onDisk (Disk.write .truncate)
      writer.onDisk Disk.sync).run s' := by
  have hundo : (writer.undoPass records (collectActive records ∅) wal).run s = (.error e, s') := by
    rw [undoPass, forEach_undoRecord, run_bind_of_error h]
  have hcatch : (tryCatch (writer.undoPass records (collectActive records ∅) wal)
      fun _ => pure ()).run s = (.ok (), s') := by
    rw [run_tryCatch, hundo]
    rfl
  rw [finish, run_bind_of_ok hcatch]

theorem truncate_run (s : σ) :
    ((writer.disk s).faults (writer.disk s).clock = true →
      (writer.onDisk (Disk.write .truncate)).run s =
        (.error .io, writer.setDisk s (writer.disk s).tick)) ∧
    ((writer.disk s).faults (writer.disk s).clock = false →
      (writer.onDisk (Disk.write .truncate)).run s =
        (.ok (), writer.setDisk s ((writer.disk s).tick.record .truncate))) := by
  constructor <;> intro hfault <;>
    simp [onDisk, Disk.write, run_bind, hfault]

/-- If not all after-images and all before-images of the losers are written,
then `Recover` fails and the log stays as it is, exactly if the redo pass is
not completed, or all are written, or the truncation of the log is refused
as well. -/
theorem recover_keeps_log_iff (s : σ) :
    ((writer.undoing.run s).1 ≠ .ok () →
        (∃ e, (writer.recover.run s).1 = .error e) ∧
          (writer.disk (writer.recover.run s).2).log = (writer.disk s).log) ↔
      (∃ e, (writer.redoing.run s).1 = .error e) ∨ (writer.undoing.run s).1 = .ok () ∨
        (writer.disk (writer.undoing.run s).2).faults
          (writer.disk (writer.undoing.run s).2).clock = true := by
  have hredoing := writer.sameLog_redoing s
  have hundoing := writer.sameLog_undoing s
  obtain ⟨e, s₁, hredo, hrun⟩ | ⟨wal, records, s₁, hredo, hrun⟩ := writer.recover_run s
  · rw [hredo] at hredoing
    rw [hrun, hredo]
    exact ⟨fun _ => .inl ⟨e, rfl⟩, fun _ _ => ⟨⟨e, rfl⟩, hredoing⟩⟩
  have hundo : writer.undoing.run s =
      (writer.writePages (undoWrites (collectActive records ∅) records.reverse)).run s₁ :=
    run_bind_of_ok hredo _
  rw [hrun, hredo]
  rcases hwrites : (writer.writePages (undoWrites (collectActive records ∅) records.reverse)).run
    s₁ with ⟨e | u, s₂⟩
  · rw [hundo, hwrites] at hundoing ⊢
    rw [writer.finish_of_undo_error hwrites]
    cases hfault : (writer.disk s₂).faults (writer.disk s₂).clock with
    | true =>
      rw [run_bind_of_error ((writer.truncate_run s₂).1 hfault)]
      refine ⟨fun _ => .inr (.inr rfl), fun _ _ => ⟨⟨.io, rfl⟩, ?_⟩⟩
      rw [writer.disk_setDisk]
      exact hundoing
    | false =>
      rw [run_bind_of_ok ((writer.truncate_run s₂).2 hfault)]
      refine iff_of_false (fun h => ?_) (by simp)
      obtain ⟨-, hlog⟩ := h nofun
      have hsync := writer.sameLog_sync
        (writer.setDisk s₂ ((writer.disk s₂).tick.record .truncate))
      rw [SameLog, writer.disk_setDisk] at hsync
      -- only a log with records has before-images to be written
      have hempty : records = [] :=
        (writer.redoing_eq_ok hredo).trans (hlog.symm.trans hsync)
      rw [hempty] at hwrites
      cases hwrites
  · rw [hundo, hwrites]
    exact ⟨fun _ => .inr (.inl rfl), fun _ h => absurd rfl h⟩

end PageWriter

/-- The fourth call fails: the write of the before-image, behind two reads of
the log and the write of the after-image. -/
def refusedPager : Pager :=
  { unfinishedPager with disk := { unfinishedPager.disk with faults := fun n => n = 3 } }

set_option maxRecDepth 20000 in
/-- Recovery succeeds and empties the log, with the update still in the
file. -/
theorem recover_drops_undo_error :
    (pagerWriter.undoing.run refusedPager).1 = .error .io ∧
      (recover.run refusedPager).1 = .ok () ∧ (recover.run refusedPager).2.disk.log = [] ∧
      (recover.run refusedPager).2.disk.pages 1 = onePage := by
  refine ⟨by decide +kernel, by decide +kernel, by decide +kernel, by decide +kernel⟩

end MySQLight.Wal
