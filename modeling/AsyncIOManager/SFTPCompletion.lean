import AsyncIOManager.SFTPTracking

namespace AsyncIOManager

open Reactor

namespace SFTPSaver

open SFTPUploadDevice

/-- The countdown of a save of `n` files is what its devices and its files still owe. -/
structure Counted (n : Nat) (s : Saving) : Prop where
  entries : ∀ x ∈ s.pool, x.handler ≠ .handleWrite
  tokens : s.pool.length + s.state.files.length = s.state.remainingWrites
  devices : s.state.files.length + s.state.uploads.length = n
  wrapped : s.state.wrapped = false
  handleWrites : s.state.handleWrites = if s.state.remainingWrites = 0 then 1 else 0

/-- A save that is rejected has posted the callback. -/
structure Rejected (s : Saving) : Prop where
  entries : ∀ x ∈ s.pool, x.handler = .handleWrite
  tokens : s.pool.length + s.state.handleWrites = 1
  files : s.state.files = []
  wrapped : s.state.wrapped = false

theorem takeAt_length {κ : Type} {pool rest : List κ} {k : Nat} {h : κ}
    (e : takeAt pool k = some (h, rest)) : rest.length + 1 = pool.length :=
  (takeAt_perm e).length_eq.symm

theorem uploadDone_countdown {m : Save} (some : m.remainingWrites ≠ 0) (unwrapped : m.wrapped = false)
    (waiting : m.handleWrites = 0) :
    (uploadDone m).remainingWrites = m.remainingWrites - 1 ∧ (uploadDone m).wrapped = false ∧
    (uploadDone m).files = m.files ∧
    (uploadDone m).handleWrites = if m.remainingWrites - 1 = 0 then 1 else 0 := by
  have less : sizeSub m.remainingWrites 1 = m.remainingWrites - 1 := if_pos (by omega)
  simp only [uploadDone, less]
  by_cases last : m.remainingWrites - 1 = 0
  · simp [last, handleWrite, unwrapped, some, waiting]
  · simp [last, unwrapped, some, waiting]

theorem Counted.take {n : Nat} {s : Saving} (hs : Counted n s) {k : Nat} {x : Entry Handler Ec}
    {rest : List (Entry Handler Ec)} (hk : takeAt s.pool k = some (x, rest)) :
    (∃ i c, x.handler = .upload i c) ∧ (∀ y ∈ rest, y.handler ≠ .handleWrite) ∧
      rest.length + 1 + s.state.files.length = s.state.remainingWrites := by
  refine ⟨?_, fun y hy => hs.entries y (takeAt_rest_mem hk hy), ?_⟩
  · have own := hs.entries x (takeAt_mem hk)
    cases hx : x.handler with
    | upload i c => exact ⟨i, c, rfl⟩
    | handleWrite => exact absurd hx own
  · rw [takeAt_length hk]
    exact hs.tokens

theorem settle_counts (i : Nat) (uploads : List Upload) {device : SFTPUploadDevice} {t b : Turn} {s : Saving}
    (fits : Fits device b t) (blank : b.pool = []) (entries : ∀ x ∈ s.pool, x.handler ≠ .handleWrite) :
    (settle i uploads t s).pool.length = s.pool.length + 1 ∧
      ∀ x ∈ (settle i uploads t s).pool, x.handler ≠ .handleWrite := by
  obtain ⟨c, o, hp, _⟩ := fits
  rw [blank] at hp
  refine ⟨by simp [settle, hp], fun x hx => ?_⟩
  rcases List.mem_append.mp hx with old | new
  · exact entries x old
  · obtain ⟨y, _, rfl⟩ := List.mem_map.mp new
    simp

theorem Counted.run {n : Nat} {s t : Saving} (hs : Counted n s) (tracked : Tracked s) {k : Nat} {x : Handler}
    {e : Ec} {ssh : Ssh2} {rest : List (Entry Handler Ec)}
    (hk : takeAt s.pool k = some (⟨x, some e⟩, rest))
    (hr : x.run e ssh { s with pool := rest } = some t) : Counted n t := by
  obtain ⟨⟨i, c, own⟩, others, tokens⟩ := hs.take hk
  rcases run_cases hr with ⟨i, c, v, rfl, waits, hv, rfl⟩ | ⟨i, rfl, rfl⟩ | ⟨rfl, rfl⟩
  · obtain ⟨u, hu, holds, _, _⟩ := tracked.take hk
    obtain rfl := Option.some.inj (hu.symm.trans hv)
    obtain ⟨length, entries⟩ := settle_counts i (s.state.uploads.set i (u.handled c e ssh))
      (s := { s with pool := rest }) (run_fits holds waits e ssh) rfl others
    refine ⟨entries, ?_, ?_, hs.wrapped, hs.handleWrites⟩
    · rw [length]
      exact tokens
    · have devices := hs.devices
      simpa [settle] using devices
  · have waiting : s.state.handleWrites = 0 := by
      rw [hs.handleWrites, if_neg (by omega)]
    obtain ⟨remaining, unwrapped, files, count⟩ :=
      uploadDone_countdown (m := s.state) (by omega) hs.wrapped waiting
    refine ⟨others, ?_, ?_, unwrapped, ?_⟩
    · change rest.length + (uploadDone s.state).files.length = (uploadDone s.state).remainingWrites
      rw [files, remaining]
      omega
    · change (uploadDone s.state).files.length + (uploadDone s.state).uploads.length = n
      rw [files, uploadDone_uploads]
      exact hs.devices
    · change (uploadDone s.state).handleWrites = if (uploadDone s.state).remainingWrites = 0 then 1 else 0
      rw [count, remaining]
  · cases own

theorem Counted.start {n : Nat} {s t : Saving} (hs : Counted n s) {resolve : Resolve}
    (h : startUpload resolve s = some t) : Counted n t := by
  obtain ⟨device, files, hf, rfl⟩ := startUpload_cases h
  obtain ⟨length, entries⟩ := settle_counts s.state.uploads.length
    (s.state.uploads ++ [.created device resolve])
    (s := s.modify fun m => { m with files }) (startSFTPUpload_fits device resolve) rfl hs.entries
  have tokens := hs.tokens
  have devices := hs.devices
  rw [hf, List.length_cons] at tokens devices
  refine ⟨entries, ?_, ?_, hs.wrapped, hs.handleWrites⟩
  · rw [length]
    change s.pool.length + 1 + files.length = s.state.remainingWrites
    omega
  · simp only [settle, Loop.modify_state, List.length_append, List.length_singleton]
    omega

theorem Counted.step {n : Nat} {s t : Saving} {l : Label Ec Ssh2 Resolve} (hs : Counted n s)
    (tracked : Tracked s) (h : machine.step s l = some t) : Counted n t := by
  rcases Machine.step_cases h with
    ⟨k, e, x, _, hk, _, rfl⟩ | ⟨k, ssh, x, e, rest, _, hk, hr⟩ | ⟨resolve, _, hr⟩
  · refine ⟨fun y hy => ?_, ?_, hs.devices, hs.wrapped, hs.handleWrites⟩
    · rcases List.mem_or_eq_of_mem_set hy with old | rfl
      · exact hs.entries y old
      · exact hs.entries ⟨x, none⟩ (List.mem_of_getElem? hk)
    · have tokens := hs.tokens
      simpa using tokens
  · exact hs.run tracked hk hr
  · exact hs.start hr

theorem Rejected.step {s t : Saving} {l : Label Ec Ssh2 Resolve} (hs : Rejected s)
    (h : machine.step s l = some t) : Rejected t := by
  rcases Machine.step_cases h with
    ⟨k, e, x, _, hk, ends, rfl⟩ | ⟨k, ssh, x, e, rest, _, hk, hr⟩ | ⟨resolve, _, hr⟩
  · have own : x = .handleWrite := hs.entries ⟨x, none⟩ (List.mem_of_getElem? hk)
    rw [own] at ends
    cases ends
  · have own : x = .handleWrite := hs.entries _ (takeAt_mem hk)
    subst own
    obtain rfl := Option.some.inj hr
    refine ⟨fun y hy => hs.entries y (takeAt_rest_mem hk hy), ?_, hs.files, hs.wrapped⟩
    have tokens := hs.tokens
    have length := takeAt_length hk
    change rest.length + (s.state.handleWrites + 1) = 1
    omega
  · obtain ⟨device, files, hf, _⟩ := startUpload_cases hr
    rw [hs.files] at hf
    cases hf

/-- A payload that SaveASync accepts, with `n` files. -/
def Valid (data : ResultType) (n : Nat) : Prop :=
  ∃ p, data = .success (some p) ∧ p.first ≠ [] ∧ p.first.length = p.second.length ∧ n = p.first.length

theorem saveASync_cases (filename : Str) (data : ResultType) (saveLocation : Option Str) :
    (∃ n, Valid data n ∧ Counted n (saveASync filename data saveLocation)) ∨
    ((∀ n, ¬ Valid data n) ∧ Rejected (saveASync filename data saveLocation)) := by
  have reject : Rejected (Loop.post ⟨{ saveLocation }, []⟩ .handleWrite .success) := by
    refine ⟨fun x hx => ?_, rfl, rfl, rfl⟩
    obtain rfl := List.mem_singleton.mp hx
    rfl
  cases data with
  | failure e => exact .inr ⟨by rintro n ⟨p, ⟨⟩, _⟩, reject⟩
  | success data =>
    cases data with
    | none => exact .inr ⟨by rintro n ⟨p, ⟨⟩, _⟩, reject⟩
    | some p =>
      by_cases none : p.first = []
      · refine .inr ⟨?_, ?_⟩
        · rintro n ⟨_, ⟨rfl⟩, some, _⟩
          exact some none
        · rw [saveASync, if_pos none]
          exact reject
      · by_cases mismatch : p.first.length ≠ p.second.length
        · refine .inr ⟨?_, ?_⟩
          · rintro n ⟨_, ⟨rfl⟩, _, same, _⟩
            exact mismatch same
          · rw [saveASync, if_neg none, if_pos mismatch]
            exact reject
        · have same : p.first.length = p.second.length := not_not.mp mismatch
          have files (b : Bool) : (devices (parseSFTPUrl filename).2 p b).length = p.first.length := by
            simp [devices, ← same]
          have pos : p.first.length ≠ 0 := fun zero => none (List.length_eq_zero_iff.mp zero)
          refine .inl ⟨p.first.length, ⟨p, rfl, none, same, rfl⟩, ?_⟩
          rw [saveASync, if_neg none, if_neg mismatch]
          refine ⟨by simp, ?_, ?_, rfl, (if_neg pos).symm⟩
          · exact (Nat.zero_add _).trans (files _)
          · exact files _

theorem Counted.done {n : Nat} {s : Saving} (hs : Counted n s) (called : s.state.handleWrites = 1) :
    s.pool = [] ∧ s.state.files = [] := by
  have last : s.state.remainingWrites = 0 := by
    by_contra more
    have none := hs.handleWrites
    rw [if_neg more] at none
    omega
  have tokens := hs.tokens
  exact ⟨List.length_eq_zero_iff.mp (by omega), List.length_eq_zero_iff.mp (by omega)⟩

/-- When nothing is pending every device has posted its callback once. -/
theorem Tracked.posted {s : Saving} (hs : Tracked s) (idle : s.pool = []) {u : Upload}
    (hu : u ∈ s.state.uploads) : u.done.posts = 1 := by
  obtain ⟨i, hi⟩ := List.mem_iff_getElem?.mp hu
  obtain ⟨c, holds, now⟩ := hs.uploads i u hi
  have none : waiting i s = [] := by simp [waiting, Loop.held, idle]
  rw [none] at now
  rcases now with absent | ⟨rfl, _⟩
  · cases absent
  · exact holds.posts

/-- A save calls `handle_write` at most once, and once when nothing is pending; with
valid files it does so after each device has posted its callback once, and the
countdown never wraps. -/
theorem save_reports_once {filename : Str} {data : ResultType} {saveLocation : Option Str} {s : Saving}
    (reach : Reaches machine.step Free (saveASync filename data saveLocation) s) :
    s.state.handleWrites ≤ 1 ∧
    (s.pool = [] → s.state.files = [] → s.state.handleWrites = 1) ∧
    s.state.wrapped = false ∧
    ∀ n, Valid data n → s.state.handleWrites = 1 →
      s.state.uploads.length = n ∧ ∀ u ∈ s.state.uploads, u.done.posts = 1 := by
  rcases saveASync_cases filename data saveLocation with ⟨n, valid, start⟩ | ⟨invalid, start⟩
  · have both : Counted n s ∧ Tracked s :=
      reach.invariant (P := fun s => Counted n s ∧ Tracked s)
        (fun _ _ _ ht _ hstep => ⟨ht.1.step ht.2 hstep, ht.2.step hstep⟩)
        ⟨start, tracked_saveASync filename data saveLocation⟩
    obtain ⟨hs, tracked⟩ := both
    refine ⟨?_, fun idle files => ?_, hs.wrapped, fun m hm called => ?_⟩
    · rw [hs.handleWrites]
      split <;> omega
    · have tokens := hs.tokens
      have last : s.state.remainingWrites = 0 := by simpa [idle, files] using tokens.symm
      rw [hs.handleWrites, if_pos last]
    · obtain ⟨idle, files⟩ := hs.done called
      have devices := hs.devices
      rw [files, List.length_nil, Nat.zero_add] at devices
      refine ⟨?_, fun u hu => tracked.posted idle hu⟩
      obtain ⟨p, rfl, _, _, rfl⟩ := valid
      obtain ⟨_, ⟨rfl⟩, _, _, rfl⟩ := hm
      exact devices
  · have hs : Rejected s := reach.invariant (fun _ _ _ ht _ hstep => ht.step hstep) start
    have tokens := hs.tokens
    refine ⟨by omega, fun idle _ => ?_, hs.wrapped, fun n hn => absurd hn (invalid n)⟩
    rw [idle, List.length_nil] at tokens
    omega

/-- The upload of a file of two bytes. -/
def uploaded : Upload where
  device := ⟨['h'], "/d/f".toList, ['u'], ['p'], [], [], [], "ab".toList, true⟩
  done := {
    calls := [.sessionInit, .setBlocking false, .handshake 0, .userauthPassword ['u'] ['p'] 0, .sftpInit 1,
      .sftpOpen 1 "./d/f".toList 1, .sftpWrite 1 0 2 2, .sftpCloseHandle 1, .sftpShutdown 1,
      .sessionDisconnect, .sessionFree, .exit]
    resolves := [(['h'], "22".toList)]
    location := some "sftp://u@h/d/f".toList
    left := some .complete
    posts := 1 }

/-- The file has been saved. -/
def saved : Saving where
  state := { uploads := [uploaded], handleWrites := 1, saveLocation := some "sftp://u@h/d/f".toList }
  pool := []

def payload : ResultType := .success (some ⟨[['f']], ["ab".toList]⟩)

theorem reaches_saved : Reaches machine.step Free (saveASync "u:p@h/d".toList payload (some [])) saved :=
  reaches_of_exec (show exec machine.step (saveASync "u:p@h/d".toList payload (some []))
    [.call (.resolved 1), .finish 0 .success, .run 0 {}, .run 0 {}] = some saved by decide)

def twoFiles : ResultType := .success (some ⟨[['f'], ['g']], ["abc".toList, "de".toList]⟩)

/-- Every call succeeds, and the server takes all of a write. -/
def takesAll : Ssh2 := {}

/-- The server takes one byte of a write. -/
def takesOne : Ssh2 := { sftpWrite := fun len => min len 1, sftpWrite_le := fun _ => Int.min_le_left .. }

def wouldBlock : Ssh2 := { sftpWrite := fun _ => eagain, sftpWrite_le := fun _ => Int.le_trans (by decide) (Int.natCast_nonneg _) }

/-- The first file is written in pieces while the second one is saved. -/
def interleaved : List (Label Ec Ssh2 Resolve) :=
  [.call (.resolved 1), .call (.resolved 1), .finish 1 .success, .finish 0 .success, .run 0 takesOne,
    .run 0 takesAll, .finish 0 .success, .run 0 wouldBlock, .run 0 takesAll, .finish 0 .success, .run 0 takesAll,
    .run 0 takesAll]

theorem save_reports_once_saved : ∃ s : Saving,
    Reaches machine.step Free (saveASync "u:p@h/d".toList twoFiles (some [])) s ∧
    s.state.handleWrites = 1 ∧ s.state.wrapped = false ∧
    s.state.uploads.length = 2 ∧ ∀ u ∈ s.state.uploads, u.done.posts = 1 := by
  have run : exec machine.step (saveASync "u:p@h/d".toList twoFiles (some [])) interleaved = some _ := rfl
  have reach := reaches_of_exec run
  obtain ⟨_, ended, unwrapped, each⟩ := save_reports_once reach
  have reported := ended rfl rfl
  exact ⟨_, reach, reported, unwrapped, each 2 ⟨_, rfl, by decide, rfl, rfl⟩ reported⟩

end SFTPSaver

end AsyncIOManager
