import AsyncIOManager.SFTPRelease

namespace AsyncIOManager

open Reactor

/-- What a call does to the count of initialisations that `libssh2` keeps. -/
def Ssh2Call.library (initialized : Nat) : Ssh2Call → Nat
  | sessionInit => if initialized = 0 then 1 else initialized
  | exit => initialized - 1
  | _ => initialized

namespace SFTPSaver

open SFTPUploadDevice

/-- The saves of a process and the global count of `libssh2`. -/
structure Process where
  saves : List Saving := []
  initialized : Nat := 0
deriving DecidableEq, Repr

/-- A call of `SaveASync`, or a step of the save `i`. -/
inductive Event
  | saveASync (filename : Str) (data : ResultType) (saveLocation : Option Str)
  | step (i : Nat) (l : Label Ec Ssh2 Resolve)

/-- The calls that the device `j` has made. -/
def callsOf (s : Saving) (j : Nat) : List Ssh2Call :=
  match s.state.uploads[j]? with
  | some u => u.done.calls
  | none => []

/-- The device that a step is about. -/
def target (s : Saving) : Label Ec Ssh2 Resolve → Option Nat
  | .run k _ =>
    match s.pool[k]? with
    | some ⟨.upload j _, _⟩ => some j
    | _ => none
  | .call _ => some s.state.uploads.length
  | .finish _ _ => none

/-- The calls made in a step from `s` to `t`. -/
def issued (s : Saving) (l : Label Ec Ssh2 Resolve) (t : Saving) : List Ssh2Call :=
  match target s l with
  | some j => (callsOf t j).drop (callsOf s j).length
  | none => []

def Process.step (p : Process) : Event → Option Process
  | .saveASync filename data saveLocation =>
    some { p with saves := p.saves ++ [SFTPSaver.saveASync filename data saveLocation] }
  | .step i l =>
    match p.saves[i]? with
    | none => none
    | some s => (machine.step s l).map fun t =>
      { saves := p.saves.set i t
        initialized := (issued s l t).foldl Ssh2Call.library p.initialized }

/-- A session that has been created and not yet freed. -/
def Upload.live (u : Upload) : Bool := .sessionInit ∈ u.done.calls && .sessionFree ∉ u.done.calls

/-- The upload whose handler a step runs, when the handler is going to clean up. -/
def leaving (p : Process) : Event → Option (Nat × Nat)
  | .step i (.run k ssh) =>
    match p.saves[i]? with
    | none => none
    | some s =>
      match s.pool[k]? with
      | some ⟨.upload j c, some ec⟩ =>
        match s.state.uploads[j]? with
        | some u => if c.ends u.device ec ssh then some (i, j) else none
        | none => none
      | _ => none
  | _ => none

/-- An upload cleans up only while no other session is live. -/
def LastLeaves (p : Process) (e : Event) : Prop :=
  ∀ x ∈ leaving p e, ∀ s ∈ p.saves.zipIdx, ∀ u ∈ s.1.state.uploads.zipIdx,
    u.1.live = true → (s.2, u.2) = x

instance (p : Process) (e : Event) : Decidable (LastLeaves p e) :=
  inferInstanceAs (Decidable (∀ x ∈ leaving p e, _))

/-- The session of the upload `j` of the save `i` is live. -/
def Live (p : Process) (i j : Nat) : Prop :=
  ∃ s u, p.saves[i]? = some s ∧ s.state.uploads[j]? = some u ∧ u.live = true

theorem LastLeaves.alone {p : Process} {e : Event} (h : LastLeaves p e) {x : Nat × Nat}
    (leaves : leaving p e = some x) {i j : Nat} (live : Live p i j) : (i, j) = x := by
  obtain ⟨s, u, hs, hu, live⟩ := live
  exact h x leaves (s, i) (List.mem_zipIdx_iff_getElem?.mpr hs) (u, j)
    (List.mem_zipIdx_iff_getElem?.mpr hu) live

/-- Calls that neither create a session nor clean one up leave the library as it is. -/
theorem library_working {calls : List Ssh2Call} (h : ∀ c ∈ calls, c.working = true) (n : Nat) :
    calls.foldl Ssh2Call.library n = n := by
  induction calls generalizing n with
  | nil => rfl
  | cons c calls ih =>
    have same : Ssh2Call.library n c = n := by
      have works := h c (by simp)
      cases c <;> first | rfl | simp [Ssh2Call.working, Ssh2Call.stage] at works
    rw [List.foldl_cons, same]
    exact ih (fun d hd => h d (by simp [hd])) n

/-- The library is initialised as long as a session is live. -/
structure Initialised (p : Process) : Prop where
  tracked : ∀ (i : Nat) s, p.saves[i]? = some s → Tracked s
  created : ∀ (i : Nat) s, p.saves[i]? = some s → ∀ u ∈ s.state.uploads, Careful u.done
  live : ∀ i j, Live p i j → 0 < p.initialized

theorem live_set {p : Process} {i j k : Nat} {t : Saving} {n : Nat}
    (live : Live { saves := p.saves.set i t, initialized := n } k j) :
    (k = i ∧ ∃ u, t.state.uploads[j]? = some u ∧ u.live = true) ∨ (k ≠ i ∧ Live p k j) := by
  obtain ⟨v, u, hv, hu, live⟩ := live
  rcases set_cases hv with ⟨own, rfl⟩ | ⟨other, hv⟩
  · exact .inl ⟨own, u, hu, live⟩
  · exact .inr ⟨other, v, u, hv, hu, live⟩

theorem live_same {p : Process} {i j k : Nat} {s t : Saving} {n : Nat} (hs : p.saves[i]? = some s)
    (same : t.state.uploads = s.state.uploads)
    (live : Live { saves := p.saves.set i t, initialized := n } k j) : Live p k j := by
  rcases live_set live with ⟨rfl, u, hu, live⟩ | ⟨_, live⟩
  · rw [same] at hu
    exact ⟨s, u, hs, hu, live⟩
  · exact live

theorem issued_same {s t : Saving} {l : Label Ec Ssh2 Resolve}
    (same : t.state.uploads = s.state.uploads) : issued s l t = [] := by
  unfold issued
  split
  next j _ =>
    have calls : callsOf t j = callsOf s j := by rw [callsOf, same, callsOf]
    rw [calls, List.drop_length]
  next => rfl

theorem issued_handled {s t : Saving} {k j : Nat} {c : Continuation} {ec : Ec} {ssh : Ssh2} {u v : Upload}
    (hk : s.pool[k]? = some ⟨.upload j c, some ec⟩) (hu : s.state.uploads[j]? = some u)
    (set : t.state.uploads = s.state.uploads.set j v) {more : List Ssh2Call}
    (calls : v.done.calls = u.done.calls ++ more) : issued s (.run k ssh) t = more := by
  have known := (List.getElem?_eq_some_iff.mp hu).1
  have now : t.state.uploads[j]? = some v := by rw [set, List.getElem?_set_self known]
  have before : callsOf s j = u.done.calls := by simp [callsOf, hu]
  have after : callsOf t j = u.done.calls ++ more := by simp [callsOf, now, calls]
  have aim : target s (.run k ssh) = some j := by simp [target, hk]
  simp [issued, aim, before, after]

theorem issued_created {s t : Saving} {device : SFTPUploadDevice} {resolve : Resolve}
    (more : t.state.uploads = s.state.uploads ++ [.created device resolve]) :
    issued s (.call resolve) t = [.sessionInit] := by
  have none : callsOf s s.state.uploads.length = [] := by simp [callsOf]
  have after : callsOf t s.state.uploads.length = [.sessionInit] := by
    simp [callsOf, more, created_calls]
  simp [issued, target, none, after]

theorem Upload.live_of_append {u v : Upload} {more : List Ssh2Call}
    (calls : v.done.calls = u.done.calls ++ more) (created : .sessionInit ∈ u.done.calls)
    (live : v.live = true) : u.live = true := by
  simp only [Upload.live, calls, Bool.and_eq_true, decide_eq_true_eq, List.mem_append, not_or] at live ⊢
  exact ⟨created, live.2.1⟩

theorem live_handled {p : Process} {i j k y n : Nat} {s t : Saving} {v : Upload}
    (hs : p.saves[i]? = some s) (set : t.state.uploads = s.state.uploads.set y v)
    (live : Live { saves := p.saves.set i t, initialized := n } k j) :
    ((k, j) = (i, y) ∧ v.live = true) ∨ ((k, j) ≠ (i, y) ∧ Live p k j) := by
  rcases live_set live with ⟨rfl, u, hu, live⟩ | ⟨other, live⟩
  · rw [set] at hu
    rcases set_cases hu with ⟨own, rfl⟩ | ⟨other, hu⟩
    · exact .inl ⟨by rw [own], live⟩
    · exact .inr ⟨by simp [other], s, u, hs, hu, live⟩
  · exact .inr ⟨by simp [other], live⟩

/-- A step inside one save. -/
theorem Initialised.inside {p : Process} {i n : Nat} {s t : Saving} {l : Label Ec Ssh2 Resolve}
    (h : Initialised p) (hs : p.saves[i]? = some s) (step : machine.step s l = some t)
    (live : ∀ k j, Live { saves := p.saves.set i t, initialized := n } k j → 0 < n) :
    Initialised { saves := p.saves.set i t, initialized := n } := by
  have each {P : Saving → Prop} (old : ∀ (k : Nat) v, p.saves[k]? = some v → P v) (new : P t) :
      ∀ (k : Nat) v, (p.saves.set i t)[k]? = some v → P v := by
    intro k v hv
    rcases set_cases hv with ⟨_, rfl⟩ | ⟨_, hv⟩
    · exact new
    · exact old k v hv
  have tracked := h.tracked i s hs
  exact ⟨each h.tracked (tracked.step step), each h.created (careful_step tracked (h.created i s hs) step), live⟩

theorem Initialised.called {p : Process} (h : Initialised p) (filename : Str) (data : ResultType)
    (saveLocation : Option Str) :
    Initialised { p with saves := p.saves ++ [SFTPSaver.saveASync filename data saveLocation] } := by
  have blank := saveASync_uploads filename data saveLocation
  refine ⟨?_, ?_, ?_⟩
  · intro i s hs
    rcases concat_cases hs with hs | rfl
    · exact h.tracked i s hs
    · exact tracked_saveASync filename data saveLocation
  · intro i s hs
    rcases concat_cases hs with hs | rfl
    · exact h.created i s hs
    · simp [blank]
  · rintro i j ⟨s, u, hs, hu, live⟩
    rcases concat_cases hs with hs | rfl
    · exact h.live i j ⟨s, u, hs, hu, live⟩
    · simp [blank] at hu

theorem Initialised.step {p q : Process} {e : Event} (h : Initialised p) (last : LastLeaves p e)
    (hs : p.step e = some q) : Initialised q := by
  cases e with
  | saveASync filename data saveLocation =>
    obtain rfl := Option.some.inj hs
    exact h.called filename data saveLocation
  | step i l =>
    simp only [Process.step] at hs
    split at hs
    next => cases hs
    next s hi =>
      obtain ⟨t, step, rfl⟩ := Option.map_eq_some_iff.mp hs
      have tracked := h.tracked i s hi
      refine h.inside hi step ?_
      intro k j live
      rcases step_uploads tracked step with same | ⟨x, ssh, y, c, ec, u, rfl, hk, waits, hu, holds, set⟩ |
        ⟨resolve, device, rfl, more⟩
      · rw [issued_same same]
        exact h.live k j (live_same hi same live)
      · have created := (h.created i s hi u (List.mem_of_getElem? hu)).created
        obtain ⟨working, works⟩ := run_works holds ec ssh ⟨{ u.done with location := none }, []⟩
        obtain ⟨closing, calls, how⟩ := works.closing
        rw [issued_handled hk hu set calls]
        have who := live_handled hi set live
        cases ends : c.ends u.device ec ssh with
        | true =>
          rw [ends, if_pos rfl] at how
          obtain ⟨sftpHandle, sftp, rfl⟩ := how
          have leaves : leaving p (.step i (.run x ssh)) = some (i, y) := by
            simp [leaving, hi, hk, hu, ends]
          rcases who with ⟨_, freed⟩ | ⟨other, live⟩
          · change (u.handled c ec ssh).done.calls = _ at calls
            simp [Upload.live, calls, cleanup] at freed
          · exact absurd (last.alone leaves live) other
        | false =>
          rw [ends, if_neg (by simp)] at how
          subst how
          rw [List.append_nil] at calls ⊢
          rw [library_working works.within]
          rcases who with ⟨own, after⟩ | ⟨_, before⟩
          · obtain ⟨rfl, rfl⟩ := Prod.mk.inj own
            have before := Upload.live_of_append (v := u.handled c ec ssh) calls created after
            exact h.live k j ⟨s, u, hi, hu, before⟩
          · exact h.live k j before
      · have first : issued s (.call resolve) t = [.sessionInit] := issued_created more
        rw [first]
        simp only [List.foldl_cons, List.foldl_nil, Ssh2Call.library]
        split <;> omega

theorem initialised_empty : Initialised {} := by
  refine ⟨by simp, by simp, ?_⟩
  rintro i j ⟨s, u, hs, _⟩
  simp at hs

/-- A save that waits for its connection. -/
def connecting : Saving where
  state := {
    uploads := [⟨uploaded.device, { calls := [.sessionInit], resolves := [(['h'], "22".toList)] }⟩]
    remainingWrites := 1
    saveLocation := some [] }
  pool := [⟨.upload 0 (.connect 1), none⟩]

theorem reaches_connecting : Reaches Process.step LastLeaves {} ⟨[saved, connecting], 1⟩ :=
  reaches_of_guarded (show exec (guarded Process.step LastLeaves) {}
    [.saveASync "u:p@h/d".toList payload (some []), .step 0 (.call (.resolved 1)),
      .step 0 (.finish 0 .success), .step 0 (.run 0 {}), .step 0 (.run 0 {}),
      .saveASync "u:p@h/d".toList payload (some []), .step 1 (.call (.resolved 1))] =
      some ⟨[saved, connecting], 1⟩ by decide)

theorem live_connecting (n : Nat) : Live ⟨[saved, connecting], n⟩ 1 0 := ⟨connecting, _, rfl, rfl, rfl⟩

end SFTPSaver

end AsyncIOManager
