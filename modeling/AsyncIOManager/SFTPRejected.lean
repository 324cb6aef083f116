import AsyncIOManager.SFTPLocation
import AsyncIOManager.SFTPSaveFile

namespace AsyncIOManager

open Reactor

namespace SFTPSaver

open SFTPUploadDevice

/-- No host has been resolved and no remote file opened. -/
def Silent (resolves : List (Str × Str)) (calls : List Ssh2Call) : Prop :=
  resolves = [] ∧ ∀ sftp path handle, Ssh2Call.sftpOpen sftp path handle ∉ calls

/-- A save has touched nothing, and has reported once when nothing is pending. -/
structure Untouched (given : Option Str) (s : Saving) : Prop where
  silent : ∀ u ∈ s.state.uploads, Silent u.done.resolves u.done.calls
  location : s.state.saveLocation = given
  reported : s.state.handleWrites ≤ 1 ∧ (s.pool = [] → s.state.handleWrites = 1)

/-- A call of `SaveFile` has touched nothing and thrown an exception. -/
structure SaveFileRun.Untouched (r : SaveFileRun) : Prop where
  silent : Silent r.resolves r.calls
  thrown : r.thrown ≠ none

/-- A rejected save creates no device and reports no location. -/
theorem Rejected.step_idle {s t : Saving} {l : Label Ec Ssh2 Resolve} (hs : Rejected s)
    (none : s.state.uploads = []) (h : machine.step s l = some t) :
    t.state.uploads = [] ∧ t.state.saveLocation = s.state.saveLocation := by
  have same : t.state.saveLocation = s.state.saveLocation := by
    rcases step_location h with same | told
    · exact same
    · rw [hs.unreported l] at told
      cases told
  refine ⟨?_, same⟩
  have devices := step_devices h
  rw [none, hs.files] at devices
  have both : t.state.uploads = [] ∧ t.state.files = [] := by simpa using devices
  exact both.1

theorem saveASync_idle (filename : Str) (data : ResultType) (given : Option Str) :
    (saveASync filename data given).state.uploads = [] ∧
      (saveASync filename data given).state.saveLocation = given := by
  unfold saveASync
  split
  · exact ⟨rfl, rfl⟩
  · exact ⟨rfl, rfl⟩
  · split
    · exact ⟨rfl, rfl⟩
    · split <;> exact ⟨rfl, rfl⟩

/-- The first device of a save that has files resolves its host. -/
theorem valid_resolves (filename : Str) {data : ResultType} (given : Option Str) {n : Nat} (valid : Valid data n) :
    ∃ s, Reaches machine.step Free (saveASync filename data given) s ∧
      ∃ u ∈ s.state.uploads, u.done.resolves ≠ [] := by
  obtain ⟨p, rfl, some, sized, _⟩ := valid
  have length : (devices (parseSFTPUrl filename).2 p given.isSome).length = p.first.length := by
    simp [devices, ← sized]
  have pos := List.length_pos_of_ne_nil some
  obtain ⟨device, files, split⟩ := List.exists_cons_of_length_pos
    (l := devices (parseSFTPUrl filename).2 p given.isSome) (by omega)
  have start : (saveASync filename (.success (Option.some p)) given).state.files = device :: files := by
    simp [saveASync, some, sized, split]
  have step : machine.step (saveASync filename (.success (Option.some p)) given) (.call (.resolved 0)) =
      Option.some (settle 0 [.created device (.resolved 0)]
        (startSFTPUpload device false (.resolved 0) (call .sessionInit ⟨{}, []⟩))
        ((saveASync filename (.success (Option.some p)) given).modify fun m => { m with files })) := by
    change startUpload _ _ = _
    simp only [startUpload, start, (saveASync_idle filename _ given).1]
    rfl
  exact ⟨_, .one trivial step, _, List.mem_singleton_self _, by simp [Upload.created, startSFTPUpload, Loop.modify, Loop.start]⟩

theorem saveConnected_resolves {o : SFTPUrl} {fileContent : Str} {w : Remote} {r t : SaveFileRun}
    (h : saveConnected o fileContent w r = some t) : t.resolves = r.resolves := by
  unfold saveConnected at h
  simp only at h
  split at h
  next => exact Option.some.inj h ▸ rfl
  next =>
    split at h
    next => exact Option.some.inj h ▸ rfl
    next =>
      split at h
      next => exact Option.some.inj h ▸ rfl
      next =>
        split at h
        next => exact Option.some.inj h ▸ rfl
        next =>
          obtain ⟨⟨writes, complete⟩, _, rfl⟩ := Option.map_eq_some_iff.mp h
          simp only
          split <;> rfl

theorem saveFile_untouched_iff (filename : Str) (data : Option Str) (w : Remote) :
    (∃ r, saveFile filename data w = some r ∧ r.Untouched) ↔ data = none ∨ w.init ≠ 0 := by
  cases data with
  | none =>
    refine iff_of_true ⟨_, rfl, ⟨rfl, by simp⟩, by simp [SaveFileRun.throw]⟩ (.inl rfl)
  | some fileContent =>
    by_cases failed : w.init ≠ 0
    · have early : saveFile filename (some fileContent) w =
          some (SaveFileRun.throw (.runtimeError "libssh2_init failed".toList) { inits := [w.init] }) := if_pos failed
      exact iff_of_true ⟨_, early, ⟨rfl, by simp⟩, by simp [SaveFileRun.throw]⟩ (.inr failed)
    · refine iff_of_false ?_ (by simpa using failed)
      rintro ⟨r, h, ⟨none, _⟩, _⟩
      have resolved : r.resolves = [splitHostPort (parseSFTPUrl filename).2.host] := by
        simp only [saveFile, if_neg failed] at h
        split at h
        next => exact Option.some.inj h ▸ rfl
        next =>
          split at h
          next => exact Option.some.inj h ▸ rfl
          next => exact saveConnected_resolves h
      rw [resolved] at none
      cases none

/-- Whatever the parser says of the URL, a save has no effect if and only if it gets no files,
or no data and no library. -/
theorem rejected_url_iff (filename : Str) (data : ResultType) (given : Option Str) :
    ((∀ s, Reaches machine.step Free (saveASync filename data given) s → Untouched given s) ↔
      ∀ n, ¬ Valid data n) ∧
    ∀ file w, (∃ r, saveFile filename file w = some r ∧ r.Untouched) ↔ file = none ∨ w.init ≠ 0 := by
  refine ⟨⟨?_, ?_⟩, saveFile_untouched_iff filename⟩
  · intro untouched n valid
    obtain ⟨s, reach, u, mem, resolved⟩ := valid_resolves filename given valid
    exact resolved ((untouched s reach).silent u mem).1
  · intro invalid s reach
    rcases saveASync_cases filename data given with ⟨n, valid, _⟩ | ⟨_, start⟩
    · exact absurd valid (invalid n)
    · obtain ⟨none, location⟩ := saveASync_idle filename data given
      have idle : Rejected s ∧ s.state.uploads = [] ∧ s.state.saveLocation = given := by
        refine reach.invariant (P := fun s => Rejected s ∧ s.state.uploads = [] ∧ s.state.saveLocation = given) ?_
          ⟨start, none, location⟩
        rintro t l v ⟨rejected, none, same⟩ _ step
        obtain ⟨still, kept⟩ := rejected.step_idle none step
        exact ⟨rejected.step step, still, kept.trans same⟩
      obtain ⟨rejected, none, same⟩ := idle
      have tokens := rejected.tokens
      refine ⟨by simp [none], same, by omega, fun idle => ?_⟩
      rw [idle, List.length_nil] at tokens
      omega

/-- A URL without a host and one without a path are rejected, and still lead to a host. -/
theorem rejected_url_resolves :
    ∃ data filename, (parseSFTPUrl []).1 = false ∧ (parseSFTPUrl filename).1 = false ∧
      (∃ s, Reaches machine.step Free (saveASync [] data none) s ∧ ¬ Untouched none s) ∧
      ¬ ∃ r, saveFile filename (some "data".toList) {} = some r ∧ r.Untouched := by
  refine ⟨oneFile, "u:p@h".toList, by decide, by decide, ?_, ?_⟩
  · have valid : Valid oneFile 1 := ⟨_, rfl, by decide, by decide, rfl⟩
    obtain ⟨s, reach, u, mem, resolved⟩ := valid_resolves [] none valid
    exact ⟨s, reach, fun untouched => resolved (untouched.silent u mem).1⟩
  · rw [saveFile_untouched_iff]
    decide

end SFTPSaver

end AsyncIOManager
