import AsyncIOManager.SFTPUpload

namespace AsyncIOManager

open Reactor

namespace SFTPSaver

open SFTPUploadDevice

def Handler.of (i : Nat) : Handler → Bool
  | upload j _ => j = i
  | handleWrite => false

/-- What the device `i` waits for. -/
def waiting (i : Nat) (s : Saving) : List Handler := (s.held (Handler.of i)).map Entry.handler

/-- A device waits for one thing and is as far as that tells, or its callback has run. -/
def Waits (u : Upload) (i : Nat) (hs : List Handler) : Prop :=
  ∃ c, Holds u.device c u.done ∧ (hs = [.upload i c] ∨ (c = .completion ∧ hs = []))

structure Tracked (s : Saving) : Prop where
  uploads : ∀ i u, s.state.uploads[i]? = some u → Waits u i (waiting i s)
  unknown : ∀ i, s.state.uploads.length ≤ i → waiting i s = []

theorem Waits.short {u : Upload} {i : Nat} {hs : List Handler} (h : Waits u i hs) : hs.length ≤ 1 := by
  obtain ⟨c, _, rfl | ⟨_, rfl⟩⟩ := h <;> simp

theorem waiting_modify (i : Nat) (f : Save → Save) (s : Saving) : waiting i (s.modify f) = waiting i s := rfl

theorem waiting_settle (i j : Nat) (uploads : List Upload) (t : Turn) (s : Saving) :
    waiting j (settle i uploads t s) =
      waiting j s ++ if i = j then t.pool.map fun x => .upload i x.handler else [] := by
  by_cases same : i = j
  · simp [waiting, Loop.held, settle, same, List.filter_map, Handler.of, Function.comp_def]
  · simp [waiting, Loop.held, settle, same, List.filter_map, Handler.of, Function.comp_def]

/-- The device that has run is tracked again, and the others still are. -/
theorem tracked_settle {s : Saving} {i : Nat} {uploads : List Upload} {device : SFTPUploadDevice} {t b : Turn}
    (others : ∀ j u, j ≠ i → uploads[j]? = some u → Waits u j (waiting j s))
    (unknown : ∀ j, uploads.length ≤ j → waiting j s = [])
    (own : uploads[i]? = some ⟨device, t.state⟩) (gone : waiting i s = [])
    (fits : Fits device b t) (blank : b.pool = []) : Tracked (settle i uploads t s) := by
  have known : i < uploads.length := (List.getElem?_eq_some_iff.mp own).1
  refine ⟨fun j u hj => ?_, fun j hj => ?_⟩
  · rw [waiting_settle]
    change uploads[j]? = some u at hj
    by_cases same : i = j
    · subst same
      obtain rfl := Option.some.inj (own.symm.trans hj)
      obtain ⟨c, o, hp, holds⟩ := fits
      refine ⟨c, holds, .inl ?_⟩
      rw [gone, if_pos rfl, hp, blank]
      rfl
    · rw [if_neg same, List.append_nil]
      exact others j u (Ne.symm same) hj
  · change uploads.length ≤ j at hj
    rw [waiting_settle, if_neg (by omega), List.append_nil]
    exact unknown j hj

theorem Tracked.take {s : Saving} (hs : Tracked s) {k i : Nat} {c : Continuation} {o : Option Ec}
    {rest : List (Entry Handler Ec)} (hk : takeAt s.pool k = some (⟨.upload i c, o⟩, rest)) :
    ∃ u, s.state.uploads[i]? = some u ∧ Holds u.device c u.done ∧
      waiting i { s with pool := rest } = [] ∧
      ∀ j, j ≠ i → waiting j { s with pool := rest } = waiting j s := by
  have mem : (⟨.upload i c, o⟩ : Entry Handler Ec) ∈ s.held (Handler.of i) :=
    List.mem_filter.mpr ⟨takeAt_mem hk, by simp [Handler.of]⟩
  have known : i < s.state.uploads.length := by
    by_contra unknown
    have none := List.map_eq_nil_iff.mp (hs.unknown i (Nat.le_of_not_lt unknown))
    rw [none] at mem
    cases mem
  have hu : s.state.uploads[i]? = some s.state.uploads[i] := List.getElem?_eq_getElem known
  have waits := hs.uploads i _ hu
  have alone := waits.short
  rw [waiting, List.length_map] at alone
  obtain ⟨before, gone⟩ := Loop.held_takeAt_own (p := Handler.of i) hk (by simp [Handler.of]) alone
  have single : waiting i s = [.upload i c] := by rw [waiting, before]; rfl
  refine ⟨_, hu, ?_, by rw [waiting, gone]; rfl, fun j other => ?_⟩
  · obtain ⟨d, holds, now | ⟨_, now⟩⟩ := waits
    · rw [single] at now
      cases now
      exact holds
    · rw [single] at now
      cases now
  · rw [waiting, Loop.held_takeAt_other hk (by simp [Handler.of, Ne.symm other]), waiting]

/-- What a device has done after one of its handlers. -/
def Upload.handled (u : Upload) (c : Continuation) (ec : Ec) (ssh : Ssh2) : Upload :=
  ⟨u.device, (c.run u.device ec ssh ⟨{ u.done with location := none }, []⟩).state⟩

/-- What a device has done when it has been created. -/
def Upload.created (device : SFTPUploadDevice) (resolve : Resolve) : Upload :=
  ⟨device, (startSFTPUpload device false resolve (call .sessionInit ⟨{}, []⟩)).state⟩

/-- The next pass of the loop creates the next device. -/
theorem startUpload_cases {s t : Saving} {resolve : Resolve} (h : startUpload resolve s = some t) :
    ∃ device files, s.state.files = device :: files ∧
      t = settle s.state.uploads.length (s.state.uploads ++ [.created device resolve])
        (startSFTPUpload device false resolve (call .sessionInit ⟨{}, []⟩))
        (s.modify fun m => { m with files }) := by
  unfold startUpload at h
  split at h
  next => cases h
  next device files hf => exact ⟨device, files, hf, (Option.some.inj h).symm⟩

/-- A handler of a save goes on with a device, counts a finished one down, or is posted. -/
theorem run_cases {s t : Saving} {x : Handler} {ec : Ec} {ssh : Ssh2} (h : x.run ec ssh s = some t) :
    (∃ i c u, x = .upload i c ∧ c ≠ .completion ∧ s.state.uploads[i]? = some u ∧
      t = settle i (s.state.uploads.set i (u.handled c ec ssh))
        (c.run u.device ec ssh ⟨{ u.done with location := none }, []⟩) s) ∨
    (∃ i, x = .upload i .completion ∧ t = s.modify uploadDone) ∨
    (x = .handleWrite ∧ t = s.modify handleWrite) := by
  have other {i : Nat} {c : Continuation} (waits : c ≠ .completion)
      (h : (s.state.uploads[i]?.map fun u => settle i (s.state.uploads.set i (u.handled c ec ssh))
        (c.run u.device ec ssh ⟨{ u.done with location := none }, []⟩) s) = some t) :
      ∃ j d u, Handler.upload i c = .upload j d ∧ d ≠ .completion ∧ s.state.uploads[j]? = some u ∧
        t = settle j (s.state.uploads.set j (u.handled d ec ssh))
          (d.run u.device ec ssh ⟨{ u.done with location := none }, []⟩) s := by
    obtain ⟨u, hu, rfl⟩ := Option.map_eq_some_iff.mp h
    exact ⟨i, c, u, rfl, waits, hu, rfl⟩
  cases x with
  | upload i c =>
    cases c with
    | completion => exact .inr (.inl ⟨i, rfl, (Option.some.inj h).symm⟩)
    | _ => exact .inl (other (by simp) h)
  | handleWrite => exact .inr (.inr ⟨rfl, (Option.some.inj h).symm⟩)

theorem Tracked.start {s t : Saving} (hs : Tracked s) {resolve : Resolve}
    (h : startUpload resolve s = some t) : Tracked t := by
  obtain ⟨device, files, _, rfl⟩ := startUpload_cases h
  refine tracked_settle (s := s.modify fun m => { m with files }) ?_ ?_ ?_
    (hs.unknown _ (Nat.le_refl _)) (startSFTPUpload_fits device resolve) rfl
  · intro j u other hj
    have lt := (List.getElem?_eq_some_iff.mp hj).1
    rw [List.length_append, List.length_singleton] at lt
    rw [List.getElem?_append_left (by omega)] at hj
    exact hs.uploads j u hj
  · intro j hj
    rw [List.length_append, List.length_singleton] at hj
    exact hs.unknown j (by omega)
  · exact List.getElem?_concat_length ..

theorem uploadDone_uploads (m : Save) : (uploadDone m).uploads = m.uploads := by
  simp only [uploadDone]
  split <;> rfl

theorem Tracked.run {s t : Saving} (hs : Tracked s) {k : Nat} {x : Handler} {e : Ec} {ssh : Ssh2}
    {rest : List (Entry Handler Ec)} (hk : takeAt s.pool k = some (⟨x, some e⟩, rest))
    (hr : x.run e ssh { s with pool := rest } = some t) : Tracked t := by
  rcases run_cases hr with ⟨i, c, v, rfl, waits, hv, rfl⟩ | ⟨i, rfl, rfl⟩ | ⟨rfl, rfl⟩
  · obtain ⟨u, hu, holds, gone, others⟩ := hs.take hk
    obtain rfl := Option.some.inj (hu.symm.trans hv)
    have known : i < s.state.uploads.length := (List.getElem?_eq_some_iff.mp hu).1
    refine tracked_settle (s := { s with pool := rest }) ?_ ?_ ?_ gone (run_fits holds waits e ssh) rfl
    · intro j v other hj
      rw [others j other]
      exact hs.uploads j v (by simpa [Ne.symm other] using hj)
    · intro j hj
      have past : s.state.uploads.length ≤ j := by simpa using hj
      rw [others j (by omega)]
      exact hs.unknown j past
    · exact List.getElem?_set_self known
  · obtain ⟨u, hu, holds, gone, others⟩ := hs.take hk
    refine ⟨fun j v hj => ?_, fun j hj => ?_⟩
    · rw [Loop.modify_state, uploadDone_uploads] at hj
      rw [waiting_modify]
      by_cases same : j = i
      · subst same
        obtain rfl := Option.some.inj (hu.symm.trans hj)
        exact ⟨.completion, holds, .inr ⟨rfl, gone⟩⟩
      · rw [others j same]
        exact hs.uploads j v hj
    · rw [Loop.modify_state, uploadDone_uploads] at hj
      rw [waiting_modify]
      by_cases same : j = i
      · rw [same, gone]
      · rw [others j same]
        exact hs.unknown j hj
  · have same (i : Nat) : waiting i { s with pool := rest } = waiting i s := by
      rw [waiting, Loop.held_takeAt_other (p := Handler.of i) hk rfl, waiting]
    refine ⟨fun i u hu => ?_, fun i hi => ?_⟩
    · rw [waiting_modify, same]
      exact hs.uploads i u hu
    · rw [waiting_modify, same]
      exact hs.unknown i hi

theorem Tracked.step {s t : Saving} {l : Label Ec Ssh2 Resolve} (hs : Tracked s)
    (h : machine.step s l = some t) : Tracked t := by
  rcases Machine.step_cases h with
    ⟨k, e, x, _, hk, _, rfl⟩ | ⟨k, ssh, x, e, rest, _, hk, hr⟩ | ⟨resolve, _, hr⟩
  · have same (i : Nat) : waiting i { s with pool := s.pool.set k ⟨x, some e⟩ } = waiting i s :=
      Loop.held_handlers_finish hk
    refine ⟨fun i u hu => ?_, fun i hi => ?_⟩
    · rw [same]
      exact hs.uploads i u hu
    · rw [same]
      exact hs.unknown i hi
  · exact hs.run hk hr
  · exact hs.start hr

/-- A step leaves the uploads as they are, runs one handler of one device, or creates a device. -/
theorem step_uploads {s t : Saving} {l : Label Ec Ssh2 Resolve} (hs : Tracked s)
    (h : machine.step s l = some t) :
    t.state.uploads = s.state.uploads ∨
    (∃ k ssh i c ec u, l = .run k ssh ∧ s.pool[k]? = some ⟨.upload i c, some ec⟩ ∧ c ≠ .completion ∧
      s.state.uploads[i]? = some u ∧ Holds u.device c u.done ∧
      t.state.uploads = s.state.uploads.set i (u.handled c ec ssh)) ∨
    (∃ resolve device, l = .call resolve ∧
      t.state.uploads = s.state.uploads ++ [.created device resolve]) := by
  rcases Machine.step_cases h with
    ⟨k, e, x, _, _, _, rfl⟩ | ⟨k, ssh, x, e, rest, hl, hk, hr⟩ | ⟨resolve, hl, hr⟩
  · exact .inl rfl
  · rcases run_cases hr with ⟨i, c, v, rfl, waits, hv, rfl⟩ | ⟨i, rfl, rfl⟩ | ⟨rfl, rfl⟩
    · obtain ⟨u, hu, holds, _, _⟩ := hs.take hk
      obtain rfl := Option.some.inj (hu.symm.trans hv)
      exact .inr (.inl ⟨k, ssh, i, c, e, u, hl, takeAt_getElem hk, waits, hu, holds, rfl⟩)
    · exact .inl (uploadDone_uploads s.state)
    · exact .inl rfl
  · obtain ⟨device, files, _, rfl⟩ := startUpload_cases hr
    exact .inr (.inr ⟨resolve, device, hl, rfl⟩)

/-- What holds of every upload of a save is kept when a handler of a device keeps it and a new
device has it. -/
theorem each_upload {P : Upload → Prop} {s t : Saving} {l : Label Ec Ssh2 Resolve} (hs : Tracked s)
    (h : ∀ u ∈ s.state.uploads, P u)
    (handled : ∀ k ssh i c ec u, l = .run k ssh → s.pool[k]? = some ⟨.upload i c, some ec⟩ → c ≠ .completion →
      s.state.uploads[i]? = some u → Holds u.device c u.done → P u → P (u.handled c ec ssh))
    (created : ∀ resolve device, l = .call resolve → P (.created device resolve))
    (step : machine.step s l = some t) : ∀ u ∈ t.state.uploads, P u := by
  intro v hv
  rcases step_uploads hs step with same | ⟨k, ssh, i, c, ec, u, hl, hk, waits, hu, holds, set⟩ |
    ⟨resolve, device, hl, more⟩
  · rw [same] at hv
    exact h v hv
  · rw [set] at hv
    rcases List.mem_or_eq_of_mem_set hv with old | rfl
    · exact h v old
    · exact handled k ssh i c ec u hl hk waits hu holds (h u (List.mem_of_getElem? hu))
  · rw [more] at hv
    rcases List.mem_append.mp hv with old | new
    · exact h v old
    · rw [List.mem_singleton.mp new]
      exact created resolve device hl

theorem tracked_saveASync (filename : Str) (data : ResultType) (saveLocation : Option Str) :
    Tracked (saveASync filename data saveLocation) := by
  have reject : Tracked (Loop.post ⟨{ saveLocation }, []⟩ .handleWrite .success) := by
    refine ⟨?_, fun _ _ => rfl⟩
    intro i u hu
    cases hu
  have started (m : Save) (none : m.uploads = []) : Tracked ⟨m, []⟩ := by
    refine ⟨?_, fun _ _ => rfl⟩
    intro i u hu
    simp [none] at hu
  unfold saveASync
  split
  · exact reject
  · exact reject
  · split
    · exact reject
    · split
      · exact reject
      · exact started _ rfl

theorem reaches_tracked {filename : Str} {data : ResultType} {saveLocation : Option Str} {s : Saving}
    (reach : Reaches machine.step Free (saveASync filename data saveLocation) s) : Tracked s :=
  reach.invariant (fun _ _ _ ht _ hstep => ht.step hstep) (tracked_saveASync filename data saveLocation)

end SFTPSaver

end AsyncIOManager
