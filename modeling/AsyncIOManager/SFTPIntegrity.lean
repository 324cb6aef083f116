import AsyncIOManager.SFTPCompletion

namespace AsyncIOManager

open Reactor Streaming

namespace SFTPUploadDevice

variable {device : SFTPUploadDevice} {c : Continuation} {d : Done}

theorem Holds.phase (h : Holds device c d) : ∃ p, exec protocol .fresh d.calls = some p := by
  cases c with
  | connect endpoints => exact ⟨_, Ready.phase h⟩
  | handshake => exact ⟨_, Ready.phase h⟩
  | auth => exact ⟨_, Ready.phase h⟩
  | createSFTP => exact ⟨_, Ready.phase h⟩
  | sftpOpen sftp => exact ⟨_, h.2.phase⟩
  | writeBlocks sftp sftpHandle totalBytesWritten => exact ⟨_, h.2.2.phase⟩
  | completion => exact Closed.phase h

/-- How much a device has transferred, whatever it waits for. -/
theorem Holds.moved (h : Holds device c d) : ∃ total, Transfer device.fileContent (writes d.calls) total ∧
    (∀ sftp sftpHandle t, c = .writeBlocks sftp sftpHandle t → t = total) ∧
    (d.left = some .complete → total = device.fileContent.length) := by
  have working {p : Phase} {total : Nat} (ready : Ready device p total d)
      (here : ∀ sftp sftpHandle t, c = .writeBlocks sftp sftpHandle t → t = total) :
      ∃ total, Transfer device.fileContent (writes d.calls) total ∧
        (∀ sftp sftpHandle t, c = .writeBlocks sftp sftpHandle t → t = total) ∧
        (d.left = some .complete → total = device.fileContent.length) := by
    refine ⟨total, ready.moved, here, fun left => ?_⟩
    rw [ready.left] at left
    cases left
  cases c with
  | connect endpoints => exact working h (by simp)
  | handshake => exact working h (by simp)
  | auth => exact working h (by simp)
  | createSFTP => exact working h (by simp)
  | sftpOpen sftp => exact working h.2 (by simp)
  | writeBlocks sftp sftpHandle totalBytesWritten =>
    refine working h.2.2 ?_
    rintro _ _ t ⟨⟩
    rfl
  | completion =>
    obtain ⟨total, moved, complete⟩ := Closed.moved h
    exact ⟨total, moved, by simp, complete⟩

end SFTPUploadDevice

namespace SFTPSaver

open SFTPUploadDevice

variable {filename : Str} {data : ResultType} {saveLocation : Option Str} {s : Saving} {i : Nat} {u : Upload}

/-- What the server has accepted of a file is a prefix of it, every write asks for all
that is left, a write after EAGAIN repeats the one before, and a write loop that is
left without an error has handed over the whole file. -/
theorem upload_integrity (reach : Reaches machine.step Free (saveASync filename data saveLocation) s)
    (hu : s.state.uploads[i]? = some u) :
    ∃ total, total ≤ u.device.fileContent.length ∧
      Write.accepted u.device.fileContent (writes u.done.calls) = u.device.fileContent.take total ∧
      (∀ sftp sftpHandle t o, ⟨.upload i (.writeBlocks sftp sftpHandle t), o⟩ ∈ s.pool → t = total) ∧
      (∀ before w rest, writes u.done.calls = before ++ w :: rest →
        Write.accepted u.device.fileContent before = u.device.fileContent.take w.offset ∧
        w.offset + w.len = u.device.fileContent.length) ∧
      (∀ before w v rest, writes u.done.calls = before ++ w :: v :: rest → w.rc = eagain →
        v.offset = w.offset ∧ v.len = w.len) ∧
      (u.done.left = some .complete →
        Write.accepted u.device.fileContent (writes u.done.calls) = u.device.fileContent) := by
  obtain ⟨c, holds, now⟩ := (reaches_tracked reach).uploads i u hu
  obtain ⟨total, moved, here, complete⟩ := holds.moved
  refine ⟨total, moved.total_le, moved.accepted_eq, ?_, ?_, ?_, ?_⟩
  · intro sftp sftpHandle t o pending
    have mem : Handler.upload i (.writeBlocks sftp sftpHandle t) ∈ waiting i s :=
      List.mem_map.mpr ⟨_, List.mem_filter.mpr ⟨pending, by simp [Handler.of]⟩, rfl⟩
    rcases now with now | ⟨_, now⟩
    · rw [now, List.mem_singleton] at mem
      cases mem
      exact here sftp sftpHandle t rfl
    · rw [now] at mem
      cases mem
  · intro before w rest hw
    rw [hw] at moved
    obtain ⟨first, whole⟩ := moved.split
    exact ⟨first.accepted_eq, whole⟩
  · intro before w v rest hw again
    rw [hw] at moved
    exact moved.retry (by rw [again]; decide)
  · intro left
    rw [moved.accepted_eq, complete left, List.take_length]

/-- The first write is taken in part, and the one that would block is repeated. -/
theorem upload_integrity_saved : ∃ (s : Saving) (u : Upload),
    Reaches machine.step Free (saveASync "u:p@h/d".toList twoFiles (some [])) s ∧
    writes u.done.calls = [⟨0, 3, 1⟩, ⟨1, 2, eagain⟩, ⟨1, 2, 2⟩] ∧
    (∀ before w rest, writes u.done.calls = before ++ w :: rest →
      Write.accepted u.device.fileContent before = u.device.fileContent.take w.offset ∧
      w.offset + w.len = u.device.fileContent.length) ∧
    (∀ before w v rest, writes u.done.calls = before ++ w :: v :: rest → w.rc = eagain →
      v.offset = w.offset ∧ v.len = w.len) ∧
    Write.accepted u.device.fileContent (writes u.done.calls) = "abc".toList := by
  have run : exec machine.step (saveASync "u:p@h/d".toList twoFiles (some [])) interleaved = some _ := rfl
  have reach := reaches_of_exec run
  obtain ⟨_, _, _, _, whole, again, complete⟩ := upload_integrity (i := 0) reach rfl
  exact ⟨_, _, reach, by decide, whole, again, complete rfl⟩

/-- Every libssh2 call of an upload is in order, and none follows its clean-up. -/
theorem session_ordered (reach : Reaches machine.step Free (saveASync filename data saveLocation) s)
    (hu : s.state.uploads[i]? = some u) {before rest : List Ssh2Call} {c : Ssh2Call}
    (hc : u.done.calls = before ++ c :: rest) : Ordered before c ∧ .exit ∉ before := by
  obtain ⟨_, holds, _⟩ := (reaches_tracked reach).uploads i u hu
  obtain ⟨p, allowed⟩ := holds.phase
  rw [hc] at allowed
  have ordered := protocol_ordered allowed
  refine ⟨ordered, fun closed => ?_⟩
  have later := ordered.cleanup .exit closed (by decide)
  have last : c.stage ≤ 12 := by cases c <;> simp [Ssh2Call.stage]
  exact absurd later (Nat.not_lt.mpr last)

theorem session_ordered_saved :
    Ordered (uploaded.done.calls.take 3) (.userauthPassword ['u'] ['p'] 0) ∧
      .exit ∉ uploaded.done.calls.take 3 :=
  session_ordered (i := 0) (u := uploaded) reaches_saved rfl
    (show uploaded.done.calls = uploaded.done.calls.take 3 ++ .userauthPassword ['u'] ['p'] 0 ::
      uploaded.done.calls.drop 4 from rfl)

end SFTPSaver

end AsyncIOManager
