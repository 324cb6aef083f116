import AsyncIOManager.LoadErrors
import AsyncIOManager.ManagerWorld

namespace AsyncIOManager

open Reactor

namespace FileManager

theorem perform_appends (c : Call) : Appends fun s : Session => (c.perform s).1 := by
  intro x
  cases c with
  | load c throws =>
    by_cases registered : (getURLComponents c.url).2.pre ∈ x.loaders
    · cases throws with
      | true =>
        simp only [Call.perform, loadASync, if_pos registered]
        refine ⟨fun y hy => (by cases hy), fun pool => by simp [Loop.modify]⟩
      | false =>
        simp only [Call.perform, loadASync, if_pos registered]
        refine ⟨fun y hy => ?_, fun pool => rfl⟩
        rw [List.mem_singleton.mp hy]
    · simp only [Call.perform, loadASync, if_neg registered]
      exact ⟨fun y hy => (by cases hy), fun pool => by simp⟩
  | save c throws =>
    by_cases registered : (getURLComponents c.url).2.pre ∈ x.savers
    · cases throws with
      | true =>
        simp only [Call.perform, saveASync, if_pos registered]
        refine ⟨fun y hy => (by cases hy), fun pool => by simp [Loop.modify]⟩
      | false =>
        simp only [Call.perform, saveASync, if_pos registered]
        refine ⟨fun y hy => ?_, fun pool => rfl⟩
        rw [List.mem_singleton.mp hy]
    · simp only [Call.perform, saveASync, if_neg registered]
      exact ⟨fun y hy => (by cases hy), fun pool => by simp⟩

theorem performAll_appends (calls : List Call) : Appends (performAll calls) := by
  induction calls with
  | nil => exact appends_id
  | cons c calls ih => exact (perform_appends c).comp ih

theorem invokeFinalcall_appends (op : Nat) (finalcall : Bool) (buffers : ResultType) (env : Env) :
    Appends (invokeFinalcall op finalcall buffers env) := by
  cases finalcall with
  | false => exact appends_id
  | true => exact (appends_modify _).comp (performAll_appends env.calls)

theorem settle_appends (op ioc : Nat) (finalcall : Bool) (buffers : ResultType) (env : Env) :
    Appends fun s : Session => invokeFinalcall op finalcall buffers env
      (s.modify (decrementOutstandingOperations op ioc)) :=
  (appends_modify _).comp (invokeFinalcall_appends op finalcall buffers env)

theorem findParser_appends (op : Nat) (parse : Bool) : Appends (findParser op parse) :=
  appends_ite (p := fun m : Manager => parse = true ∧ "mnn".toList ∉ m.parsers)
    (appends_modify fun m : Manager => m.note op Op.dereferenceEnd) appends_id

theorem handleRead_appends (op : Nat) (call : Load) (suffix : Str) (c : ReadCall) (env : Env) :
    Appends (handleRead op call suffix c env) := by
  obtain ⟨buffers, parse, save⟩ := c
  cases buffers with
  | failure err => exact settle_appends op call.ioc call.finalcall (.failure err) env
  | success data =>
    have nested : Appends fun s : Session => invokeFinalcall op call.finalcall (.success data) env
        (s.start (.nestedWrite op call.ioc call.savetype suffix (.success data))) :=
      (appends_start _).comp (invokeFinalcall_appends op call.finalcall (.success data) env)
    have thrown : Appends fun s : Session => if env.saverThrows then s.modify (·.note op Op.failSave) else
        invokeFinalcall op call.finalcall (.success data) env
          (s.start (.nestedWrite op call.ioc call.savetype suffix (.success data))) :=
      appends_ite (p := fun _ => env.saverThrows = true)
        (appends_modify fun m : Manager => m.note op Op.failSave) nested
    have saved := appends_ite (p := fun m : Manager => call.savetype ∉ m.savers)
      (appends_modify fun m : Manager => m.note op Op.dereferenceEnd) thrown
    have done := appends_ite (p := fun _ : Manager => save = true) saved
      (settle_appends op call.ioc call.finalcall (.success data) env)
    exact (findParser_appends op parse).comp done

/-- The manager leaves alone the callbacks that it has given away. -/
theorem machine_begins : machine.Begins := by
  refine ⟨?_, ?_, ?_⟩
  · intro h e env
    have none : Begins fun _ : Session => (none : Option Session) := fun _ _ ht => by cases ht
    cases h with
    | handleRead op call filePath suffix =>
      cases e with
      | read c => exact (handleRead_appends op call suffix c env).begins
      | written => exact none
    | nestedWrite op ioc savetype suffix buffers =>
      cases e with
      | read c => exact none
      | written => exact (appends_modify (decrementOutstandingOperations op ioc)).begins
    | handleWrite op call filePath suffix =>
      cases e with
      | read c => exact none
      | written => exact (settle_appends op call.ioc call.finalcall call.data env).begins
  · intro c
    exact (perform_appends c).begins
  · intro h e env s t hr
    cases h with
    | handleRead op call filePath suffix =>
      cases e with
      | read c => rfl
      | written => cases hr
    | nestedWrite op ioc savetype suffix buffers =>
      cases e with
      | read c => cases hr
      | written => rfl
    | handleWrite op call filePath suffix =>
      cases e with
      | read c => cases hr
      | written => rfl

section Past

variable {o : Outcomes} {i : Nat} {m : Manager} {c : Load} {s t : Session}

/-- Once the callback of a load has run, its record is as what the loader has reported says. -/
theorem Lives.past {l : Label Outcome Env Call} (hs : Lives o i m c s)
    (past : remaining (s.held fun h => h.op = i) ≤ 2) (h : machine.step s l = some t) :
    Lives o i m c t ∧ remaining (t.held fun h => h.op = i) ≤ 2 := by
  obtain ⟨p, hp, life⟩ := hs.life
  have known : i < s.state.ops.length := (List.getElem?_eq_some_iff.mp hp).1
  rcases Machine.step_cases h with
    ⟨k, e, x, _, hk, ends, rfl⟩ | ⟨k, env, x, e, rest, _, hk, hr⟩ | ⟨c', _, hr⟩
  · by_cases own : x.op = i
    · obtain ⟨before, after⟩ := Loop.held_finish_own (e := e) hk (decide_eq_true own) life.short
      rw [before] at life past
      rw [after]
      cases life with
      | reading _ => simp [remaining] at past
      | @saving op ioc savetype suffix buffers _ _ final =>
        cases e with
        | read r => cases ends
        | written =>
          refine ⟨⟨hs.parsers, hs.savers, _, hp, ?_⟩, by simp [remaining]⟩
          rw [after]
          exact .saving (fun d same => (Option.some.inj same).symm) final
    · have same := Loop.held_finish_other (p := fun h : Handler => decide (h.op = i)) (e := e) hk (decide_eq_false own)
      exact ⟨hs.frame ⟨rfl, same, rfl, rfl⟩, by rw [same]; exact past⟩
  · by_cases own : x.op = i
    · obtain ⟨before, gone⟩ := Loop.held_takeAt_own hk (decide_eq_true own) life.short
      rw [before] at life past
      cases life with
      | reading _ => simp [remaining] at past
      | @saving op ioc savetype suffix buffers _ queued final =>
        obtain rfl : op = i := own
        obtain rfl := queued e rfl
        obtain rfl := Option.some.inj hr
        have none : (nestedWrite op ioc { s with pool := rest }).held (fun h => h.op = op) = [] := by
          rw [nestedWrite, Loop.held_modify, gone]
        refine ⟨⟨?_, ?_, o.final m c, ?_, ?_⟩, ?_⟩
        · simpa [nestedWrite] using hs.parsers
        · simpa [nestedWrite] using hs.savers
        · simp [nestedWrite, hp, final]
        · rw [none]
          exact .ended
        · rw [none]
          simp [remaining]
    · have same := Loop.held_takeAt_other (p := fun h : Handler => decide (h.op = i)) hk (decide_eq_false own)
      have left : Lives o i m c { s with pool := rest } := hs.frame ⟨rfl, same, rfl, rfl⟩
      have frame := run_frame (s := { s with pool := rest }) known own hr
      exact ⟨left.frame frame, by rw [frame.held, same]; exact past⟩
  · obtain rfl := Option.some.inj hr
    have frame := perform_frame known c'
    exact ⟨hs.frame frame, by rw [frame.held]; exact past⟩

end Past

/-- The record of a save that is done. -/
def Save.done (c : Save) : Op :=
  let p : Op := Op.decrement { ioc := c.ioc, finalcall := c.finalcall }
  if c.finalcall then p.tell c.data else p

/-- What the manager has done for a callback with what it was told. -/
def Answered (m : Manager) (h : Handler) (e : Outcome) (s : Session) : Prop :=
  match h, e with
  | .handleRead op call _ _, .read c =>
    ∃ throws, Lives ⟨false, c.buffers, throws⟩ op m call s ∧ remaining (s.held fun h => h.op = op) ≤ 2
  | .handleWrite op call _ _, .written => s.state.ops[op]? = some call.done ∧ s.held (fun h => h.op = op) = []
  | _, _ => True

section Registries

variable {s t : Session}

/-- The parsers and the savers that are registered in both states. -/
def SameRegistries (s t : Session) : Prop := t.state.parsers = s.state.parsers ∧ t.state.savers = s.state.savers

theorem SameRegistries.trans {u : Session} (first : SameRegistries s t) (second : SameRegistries t u) :
    SameRegistries s u :=
  ⟨second.1.trans first.1, second.2.trans first.2⟩

theorem decrement_registries (op ioc : Nat) : SameRegistries s (s.modify (decrementOutstandingOperations op ioc)) :=
  ⟨by simp, by simp⟩

theorem perform_registries (c : Call) (s : Session) : SameRegistries s (c.perform s).1 := by
  cases c with
  | load c throws =>
    by_cases registered : (getURLComponents c.url).2.pre ∈ s.state.loaders
    · rw [Call.perform, loadASync, if_pos registered]
      cases throws <;> exact ⟨rfl, rfl⟩
    · rw [Call.perform, loadASync, if_neg registered]
      exact ⟨rfl, rfl⟩
  | save c throws =>
    by_cases registered : (getURLComponents c.url).2.pre ∈ s.state.savers
    · rw [Call.perform, saveASync, if_pos registered]
      cases throws with
      | true => exact ⟨by simp [Manager.note, incrementOutstandingOperations], by simp [Manager.note, incrementOutstandingOperations]⟩
      | false => exact ⟨rfl, rfl⟩
    · rw [Call.perform, saveASync, if_neg registered]
      exact ⟨rfl, rfl⟩

theorem performAll_registries (calls : List Call) (s : Session) : SameRegistries s (performAll calls s) := by
  induction calls generalizing s with
  | nil => exact ⟨rfl, rfl⟩
  | cons c calls ih => exact (perform_registries c s).trans (ih _)

theorem invokeFinalcall_registries (op : Nat) (finalcall : Bool) (buffers : ResultType) (env : Env) (s : Session) :
    SameRegistries s (invokeFinalcall op finalcall buffers env s) := by
  cases finalcall with
  | false => exact ⟨rfl, rfl⟩
  | true =>
    have told : SameRegistries s (s.modify (·.note op (Op.tell buffers))) := ⟨rfl, rfl⟩
    exact told.trans (performAll_registries env.calls _)

theorem settle_registries (op ioc : Nat) (finalcall : Bool) (buffers : ResultType) (env : Env) (s : Session) :
    SameRegistries s (invokeFinalcall op finalcall buffers env (s.modify (decrementOutstandingOperations op ioc))) :=
  (decrement_registries op ioc).trans (invokeFinalcall_registries op finalcall buffers env _)

theorem run_registries {x : Handler} {e : Outcome} {env : Env} (hr : x.run e env s = some t) :
    SameRegistries s t := by
  cases x with
  | handleRead op call filePath suffix =>
    cases e with
    | written => cases hr
    | read c =>
      obtain rfl := Option.some.inj hr
      have looked : SameRegistries s (findParser op c.parse s) := ⟨by simp, by simp⟩
      unfold handleRead
      split
      · refine looked.trans ?_
        dsimp only
        split
        · split
          · exact ⟨rfl, rfl⟩
          · split
            · exact ⟨rfl, rfl⟩
            · exact invokeFinalcall_registries op call.finalcall c.buffers env _
        · exact settle_registries op call.ioc call.finalcall c.buffers env _
      · exact settle_registries op call.ioc call.finalcall c.buffers env s
  | nestedWrite op ioc savetype suffix buffers =>
    cases e with
    | read c => cases hr
    | written =>
      obtain rfl := Option.some.inj hr
      exact decrement_registries op ioc
  | handleWrite op call filePath suffix =>
    cases e with
    | read c => cases hr
    | written =>
      obtain rfl := Option.some.inj hr
      exact settle_registries op call.ioc call.finalcall call.data env s

theorem step_registries {l : Label Outcome Env Call} (h : machine.step s l = some t) : SameRegistries s t := by
  rcases Machine.step_cases h with ⟨k, e, x, _, _, _, rfl⟩ | ⟨k, env, x, e, rest, _, _, hr⟩ | ⟨c, _, hr⟩
  · exact ⟨rfl, rfl⟩
  · exact run_registries (s := { s with pool := rest }) hr
  · obtain rfl := Option.some.inj hr
    exact perform_registries c s

end Registries

/-- The registries are those of `m`, and the operations are accounted for. -/
structure Managed (m : Manager) (s : Session) : Prop where
  accounted : Accounted s
  parsers : s.state.parsers = m.parsers
  savers : s.state.savers = m.savers

theorem Managed.step {m : Manager} {s t : Session} {l : Label Outcome Env Call} (hs : Managed m s)
    (h : machine.step s l = some t) : Managed m t := by
  obtain ⟨parsers, savers⟩ := step_registries h
  exact ⟨hs.accounted.step h, parsers.trans hs.parsers, savers.trans hs.savers⟩

/-- A callback that runs answers for what it was told. -/
theorem Managed.answers {m : Manager} {s t : Session} (hs : Managed m s) {k : Nat} {h : Handler} {e : Outcome}
    {env : Env} (at_k : s.pool[k]? = some ⟨h, none⟩) (fits : h.fits e)
    (run : h.run e env ⟨s.state, s.pool.eraseIdx k⟩ = some t) : Answered m h e t := by
  have hk : takeAt s.pool k = some (⟨h, none⟩, s.pool.eraseIdx k) := by simp [takeAt, at_k]
  obtain ⟨p, at_op, stage, none, _⟩ := hs.accounted.take hk
  have gone : ({ s with pool := s.pool.eraseIdx k } : Session).held (fun x => x.op = h.op) = [] :=
    List.map_eq_nil_iff.mp none
  cases h with
  | handleRead op call filePath suffix =>
    cases e with
    | written => cases run
    | read c =>
      obtain rfl := Option.some.inj run
      cases stage with
      | first found =>
        obtain rfl := found
        exact ⟨env.saverThrows, Lives.handleRead (s := ⟨s.state, s.pool.eraseIdx k⟩)
          (o := ⟨false, c.buffers, env.saverThrows⟩) hs.parsers hs.savers at_op gone
          ⟨rfl, fun data loaded => (fits data loaded).2⟩ suffix rfl⟩
  | nestedWrite op ioc savetype suffix buffers => cases e <;> trivial
  | handleWrite op call filePath suffix =>
    cases e with
    | read c => cases run
    | written =>
      obtain rfl := Option.some.inj run
      cases stage with
      | first found =>
        obtain rfl := found
        have decremented : ((⟨s.state, s.pool.eraseIdx k⟩ : Session).modify
            (decrementOutstandingOperations op call.ioc)).state.ops[op]? =
            some (Op.decrement { ioc := call.ioc, finalcall := call.finalcall }) := by
          have here : s.state.ops[op]? = some { ioc := call.ioc, finalcall := call.finalcall } := at_op
          simp [here]
        obtain ⟨told, held, _, _⟩ := invokeFinalcall_op decremented call.finalcall call.data env
        exact ⟨told, held.trans gone⟩

/-- What the manager has done for a callback stays done. -/
theorem Managed.answered {m : Manager} {s t : Session} {l : Label Outcome Env Call} (h : machine.step s l = some t)
    {x : Handler} {e : Outcome} (answered : Answered m x e s) : Answered m x e t := by
  cases x with
  | handleRead op call filePath suffix =>
    cases e with
    | written => trivial
    | read c =>
      obtain ⟨throws, lives, past⟩ := answered
      exact ⟨throws, lives.past past h⟩
  | nestedWrite op ioc savetype suffix buffers => cases e <;> trivial
  | handleWrite op call filePath suffix =>
    cases e with
    | read c => trivial
    | written =>
      obtain ⟨done, gone⟩ := answered
      have known : op < s.state.ops.length := (List.getElem?_eq_some_iff.mp done).1
      have frame : Frame op s t := by
        rcases Machine.step_cases h with ⟨k, d, y, _, hk, _, rfl⟩ | ⟨k, env, y, d, rest, _, hk, hr⟩ | ⟨c, _, hr⟩
        · have other : y.op ≠ op := by
            rintro rfl
            have mem : (⟨y, none⟩ : Entry Handler Outcome) ∈ s.held fun x => x.op = y.op :=
              List.mem_filter.mpr ⟨List.mem_of_getElem? hk, decide_eq_true rfl⟩
            rw [gone] at mem
            cases mem
          exact ⟨rfl, Loop.held_finish_other hk (decide_eq_false other), rfl, rfl⟩
        · have other : y.op ≠ op := by
            rintro rfl
            have mem : (⟨y, some d⟩ : Entry Handler Outcome) ∈ s.held fun x => x.op = y.op :=
              List.mem_filter.mpr ⟨takeAt_mem hk, decide_eq_true rfl⟩
            rw [gone] at mem
            cases mem
          have left : Frame op s { s with pool := rest } :=
            ⟨rfl, Loop.held_takeAt_other hk (decide_eq_false other), rfl, rfl⟩
          exact left.trans (run_frame (s := { s with pool := rest }) known other hr)
        · obtain rfl := Option.some.inj hr
          exact perform_frame known c
      exact ⟨frame.op.trans done, frame.held.trans gone⟩

/-- The manager with its loaders and savers, before the first call. -/
def begun (loaders parsers savers : List Str) (dht : Bool) (files : Storage) : System Manager Handler Loaders :=
  ⟨{ loaders, parsers, savers }, [], ⟨[], IPFSDevice.created dht, files⟩⟩

theorem begun_fine (kind : Str → Saver) (loaders parsers savers : List Str) (dht : Bool) (files : Storage) :
    (begun loaders parsers savers dht files).Sound (Loaders.Fine kind) := by
  refine ⟨rfl, ?_, fun i => Nat.le_of_eq (IPFSDevice.balanced_created dht i), ?_, ⟨?_, ?_⟩, ?_⟩
  · intro n h w at_n
    cases at_n
  · simp [begun, IPFSDevice.created, IPFSDevice.Ready]
  · simp [begun, IPFSDevice.created]
  · simp [begun, IPFSDevice.created]
  · intro n k i known
    cases known

/-- What has become of a load: its loader has not reported, or the record of the load is as the
one report of the loader and the noted end of the nested saver say, up to the decrement that a
nested save still owes. -/
def LoadAnswered (m : Manager) (told : List Outcome) (call : Load) (p : Op) : Prop :=
  told = [] ∧ p = call.fresh ∨
  ∃ c, told = [.read c] ∧ c.Flags call.parse call.save ∧
    (p = Outcomes.final ⟨false, c.buffers, p.saverThrew⟩ m call ∨
      p = Outcomes.told ⟨false, c.buffers, p.saverThrew⟩ m call ∧
        Outcomes.final ⟨false, c.buffers, p.saverThrew⟩ m call = p.decrement)

/-- What has become of a save. -/
def SaveAnswered (told : List Outcome) (call : Save) (p : Op) : Prop :=
  told = [] ∧ p = { ioc := call.ioc, finalcall := call.finalcall } ∨ told = [.written] ∧ p = call.done

theorem told_saverThrew (o : Outcomes) (m : Manager) (c : Load) : (o.told m c).saverThrew = false := by
  have looked : (o.looked m c).saverThrew = false := by
    unfold Outcomes.looked
    split
    · split <;> rfl
    · rfl
  unfold Outcomes.told
  split <;> exact looked

/-- The record notes whether the nested saver threw, if it was called. -/
theorem final_recorded (o : Outcomes) (m : Manager) (c : Load) :
    Outcomes.final ⟨o.loaderThrows, o.buffers, (o.final m c).saverThrew⟩ m c = o.final m c := by
  obtain ⟨loaderThrows, buffers, saverThrows⟩ := o
  have kept (throws : Bool) := told_saverThrew ⟨loaderThrows, buffers, throws⟩ m c
  cases buffers with
  | failure err => rfl
  | success data =>
    cases save : c.save with
    | false => simp only [Outcomes.final, save, Bool.false_eq_true, if_false, Outcomes.told, Outcomes.looked]
    | true =>
      by_cases unknown : c.savetype ∉ m.savers
      · simp only [Outcomes.final, save, if_true, if_pos unknown, Outcomes.looked]
      · cases saverThrows with
        | true => simp only [Outcomes.final, save, if_true, if_neg unknown, Op.failSave, Outcomes.looked]
        | false =>
          have final : Outcomes.final ⟨loaderThrows, .success data, false⟩ m c =
              (Outcomes.told ⟨loaderThrows, .success data, false⟩ m c).decrement := by
            simp only [Outcomes.final, save, if_true, if_neg unknown, Bool.false_eq_true, if_false]
          have unthrown : (Outcomes.final ⟨loaderThrows, .success data, false⟩ m c).saverThrew = false := by
            rw [final]
            exact kept false
          rw [unthrown]

theorem Life.record {o : Outcomes} {m : Manager} {c : Load} {xs : List (Entry Handler Outcome)} {p : Op}
    (life : Life o m c xs p) (past : remaining xs ≤ 2) :
    p = Outcomes.final ⟨o.loaderThrows, o.buffers, p.saverThrew⟩ m c ∨
    p = Outcomes.told ⟨o.loaderThrows, o.buffers, p.saverThrew⟩ m c ∧
      Outcomes.final ⟨o.loaderThrows, o.buffers, p.saverThrew⟩ m c = p.decrement := by
  cases life with
  | @reading op filePath suffix out _ => cases out <;> simp [remaining] at past
  | saving _ final =>
    have noted : (o.final m c).saverThrew = (o.told m c).saverThrew := by
      rw [final]
      rfl
    have recorded := final_recorded o m c
    rw [noted, final] at recorded
    exact .inr ⟨rfl, recorded⟩
  | ended => exact .inl (final_recorded o m c).symm

/-- A callback that has not been told leaves its operation as it began. -/
theorem pending_fresh {lib : Libp2p} {codec : IPFSLoader.Codec} {kind : Str → Saver} {s : System Manager Handler Loaders}
    (accounted : Accounted (s.loop (loaders lib codec kind))) {n : Nat} {h : Handler} (at_n : s.started[n]? = some h)
    (untold : s.world.told n = []) : ∃ p, s.state.ops[h.op]? = some p ∧ Stage [h] p := by
  have mem : (⟨h, none⟩ : Entry Handler Outcome) ∈ (s.loop (loaders lib codec kind)).pool := by
    refine List.mem_map.mpr ⟨(h, n), List.mem_filter.mpr ⟨?_, ?_⟩, rfl⟩
    · exact List.mk_mem_zipIdx_iff_getElem?.mpr at_n
    · simp [loaders, World.watch, untold]
  obtain ⟨k, rest, hk⟩ := takeAt_of_mem mem
  obtain ⟨p, at_op, stage, _⟩ := accounted.take hk
  exact ⟨p, at_op, stage⟩

section Reached

variable {lib : Libp2p} {codec : IPFSLoader.Codec} {kind : Str → Saver} {loaders parsers savers : List Str} {dht : Bool}
  {files : Storage} {s : System Manager Handler Loaders}

/-- What all states of the manager with its loaders have. -/
structure Known (lib : Libp2p) (codec : IPFSLoader.Codec) (kind : Str → Saver) (m : Manager) (s : System Manager Handler Loaders) :
    Prop where
  accounted : Accounted (s.loop (FileManager.loaders lib codec kind))
  once : ∀ n, (s.world.told n).length ≤ 1
  fits : ∀ n h, s.started[n]? = some h → ∀ e ∈ s.world.told n, h.fits e
  answered : ∀ n h, s.started[n]? = some h → ∀ e ∈ s.world.told n,
    Answered m h e (s.loop (FileManager.loaders lib codec kind))

theorem reaches_known
    (reach : Reaches (System.step machine (FileManager.loaders lib codec kind)) Free
      (begun loaders parsers savers dht files) s) :
    Reaches machine.step Free (started loaders parsers savers) (s.loop (FileManager.loaders lib codec kind)) ∧
    Known lib codec kind { loaders, parsers, savers } s := by
  have sound := begun_fine kind loaders parsers savers dht files
  have tells := loaders_tell lib codec kind
  have untold (n : Nat) : (FileManager.loaders lib codec kind).told (begun loaders parsers savers dht files).world n = [] := rfl
  have simulated : Reaches machine.step Free (started loaders parsers savers)
      (s.loop (FileManager.loaders lib codec kind)) :=
    (System.refines machine_begins tells sound reach).2.mono fun _ _ _ => trivial
  refine ⟨simulated, reaches_accounted simulated, System.told_once machine_begins tells sound untold reach, ?_, ?_⟩
  · exact System.answers machine_begins tells (J := fun _ => True) (P := fun h e _ => h.fits e)
      (fun _ _ _ _ _ => trivial) (fun _ _ _ _ _ _ _ _ fit _ => fit) (fun _ _ _ _ _ _ _ _ fit => fit)
      sound trivial untold reach
  · exact System.answers machine_begins tells (J := Managed { loaders, parsers, savers })
      (P := Answered { loaders, parsers, savers }) (fun _ _ _ hu h => hu.step h)
      (fun _ _ _ _ _ _ hu at_k fit run => hu.answers at_k fit run)
      (fun _ _ _ _ _ _ _ h answered => Managed.answered h answered)
      sound ⟨accounted_started loaders parsers savers, rfl, rfl⟩ untold reach

theorem Known.told {m : Manager} (known : Known lib codec kind m s) {n : Nat} {h : Handler} (at_n : s.started[n]? = some h) :
    s.world.told n = [] ∨ ∃ e, s.world.told n = [e] ∧ h.fits e ∧
      Answered m h e (s.loop (FileManager.loaders lib codec kind)) := by
  rcases told : s.world.told n with _ | ⟨e, rest⟩
  · exact .inl rfl
  · have mem : e ∈ s.world.told n := by
      rw [told]
      exact List.mem_cons_self
    have short := known.once n
    rw [told, List.length_cons] at short
    obtain rfl : rest = [] := List.length_eq_zero_iff.mp (by omega)
    exact .inr ⟨e, rfl, known.fits n h at_n e mem, known.answered n h at_n e mem⟩

/-- The manager with its loaders, its shared device and its savers does what the manager alone
does with loaders that report at most once, and every record is as what was reported. -/
theorem system_answers
    (reach : Reaches (System.step machine (FileManager.loaders lib codec kind)) Free
      (begun loaders parsers savers dht files) s) :
    Reaches machine.step Free (started loaders parsers savers) (s.loop (FileManager.loaders lib codec kind)) ∧
    (∀ n op call filePath suffix, s.started[n]? = some (.handleRead op call filePath suffix) →
      ∃ p, s.state.ops[op]? = some p ∧
        LoadAnswered { loaders, parsers, savers } (s.world.told n) call p) ∧
    ∀ n op call filePath suffix, s.started[n]? = some (.handleWrite op call filePath suffix) →
      ∃ p, s.state.ops[op]? = some p ∧ SaveAnswered (s.world.told n) call p := by
  obtain ⟨simulated, known⟩ := reaches_known reach
  refine ⟨simulated, ?_, ?_⟩
  · intro n op call filePath suffix at_n
    rcases known.told at_n with untold | ⟨e, told, fit, answered⟩
    · obtain ⟨p, at_op, stage⟩ := pending_fresh known.accounted at_n untold
      cases stage with
      | first found => exact ⟨p, at_op, .inl ⟨untold, found⟩⟩
    · cases e with
      | written => cases fit
      | read c =>
        obtain ⟨throws, lives, past⟩ := answered
        obtain ⟨p, at_op, life⟩ := lives.life
        exact ⟨p, at_op, .inr ⟨c, told, fit, life.record past⟩⟩
  · intro n op call filePath suffix at_n
    rcases known.told at_n with untold | ⟨e, told, fit, answered⟩
    · obtain ⟨p, at_op, stage⟩ := pending_fresh known.accounted at_n untold
      cases stage with
      | first found => exact ⟨p, at_op, .inl ⟨untold, found⟩⟩
    · cases e with
      | read c => cases fit
      | written =>
        obtain ⟨done, _⟩ := answered
        exact ⟨_, done, .inr ⟨told, rfl⟩⟩

end Reached

/-- The callbacks that an operation begins with. -/
def Handler.begins : Handler → Bool
  | nestedWrite _ _ _ _ _ => false
  | _ => true

/-- Between two states the operations stay, and a new one has thrown or is held by its callback. -/
structure Grows (s t : Session) : Prop where
  pool : ∀ x ∈ s.pool, x ∈ t.pool
  ops : ∀ (i : Nat) (p : Op), t.state.ops[i]? = some p →
    (∃ q, s.state.ops[i]? = some q ∧ (q.threw = true → p.threw = true)) ∨ p.threw = true ∨
      ∃ x ∈ t.pool, x.handler.op = i ∧ x.handler.begins = true

section Grows

variable {s t u : Session}

theorem grows_refl (s : Session) : Grows s s :=
  ⟨fun _ hx => hx, fun _ p hp => .inl ⟨p, hp, fun threw => threw⟩⟩

theorem Grows.trans (first : Grows s t) (second : Grows t u) : Grows s u := by
  refine ⟨fun x hx => second.pool x (first.pool x hx), fun i p hp => ?_⟩
  rcases second.ops i p hp with ⟨q, hq, kept⟩ | threw | held
  · rcases first.ops i q hq with ⟨r, hr, kept'⟩ | threw | ⟨x, hx, own⟩
    · exact .inl ⟨r, hr, fun threw => kept (kept' threw)⟩
    · exact .inr (.inl (kept threw))
    · exact .inr (.inr ⟨x, second.pool x hx, own⟩)
  · exact .inr (.inl threw)
  · exact .inr (.inr held)

/-- A record that changes does not forget an exception. -/
theorem grows_modify {f : Manager → Manager} {op : Nat} {g : Op → Op} (ops : (f s.state).ops = s.state.ops.modify op g)
    (kept : ∀ p, p.threw = true → (g p).threw = true) : Grows s (s.modify f) := by
  refine ⟨fun _ hx => hx, fun i p hp => ?_⟩
  rw [Loop.modify_state, ops, List.getElem?_modify] at hp
  cases here : s.state.ops[i]? with
  | none => simp [here] at hp
  | some q =>
    refine .inl ⟨q, rfl, fun threw => ?_⟩
    by_cases same : op = i
    · have eq : g q = p := by simpa [here, same] using hp
      rw [← eq]
      exact kept q threw
    · have eq : q = p := by simpa [here, same] using hp
      rw [← eq]
      exact threw

theorem grows_start (h : Handler) : Grows s (s.start h) :=
  ⟨fun _ hx => List.mem_append_left _ hx, fun _ p hp => .inl ⟨p, hp, fun threw => threw⟩⟩

theorem grows_decrement (op ioc : Nat) : Grows s (s.modify (decrementOutstandingOperations op ioc)) :=
  grows_modify (decrementOutstandingOperations_ops op ioc s.state) fun _ threw => threw

theorem grows_tell (op : Nat) (buffers : ResultType) : Grows s (s.modify (·.note op (Op.tell buffers))) :=
  grows_modify rfl fun _ threw => threw

theorem grows_aside (op : Nat) {f : Op → Op} (aside : Op.Aside f) : Grows s (s.modify (·.note op f)) :=
  grows_modify rfl fun p threw => (aside.threw p).trans threw

theorem Looked.grows {op : Nat} {o p : Op} (looked : Looked op o s p u) : Grows s u := by
  cases looked with
  | found => exact grows_refl s
  | missing => exact grows_aside op dereferenceEnd_aside

/-- An operation that is accepted has thrown, or its callback is held. -/
theorem perform_grows (c : Call) (counted : 0 ≤ s.state.outstandingOperations) : Grows s (c.perform s).1 := by
  have accepted (o : Op) (m : Manager) (pool : List (Entry Handler Outcome)) (ops : m.ops = s.state.ops ++ [o])
      (old : ∀ x ∈ s.pool, x ∈ pool) (own : o.threw = true ∨
        ∃ x ∈ pool, x.handler.op = s.state.ops.length ∧ x.handler.begins = true) : Grows s ⟨m, pool⟩ := by
    refine ⟨old, fun i p hp => ?_⟩
    rw [show (⟨m, pool⟩ : Session).state.ops = s.state.ops ++ [o] from ops] at hp
    rcases Nat.lt_or_ge i s.state.ops.length with known | new
    · rw [List.getElem?_append_left known] at hp
      exact .inl ⟨p, hp, fun threw => threw⟩
    · have bound := (List.getElem?_eq_some_iff.mp hp).1
      rw [List.length_append, List.length_singleton] at bound
      obtain rfl : i = s.state.ops.length := by omega
      rw [List.getElem?_concat_length] at hp
      obtain rfl := Option.some.inj hp
      exact .inr own
  rcases perform_cases c counted with ⟨_, eq⟩ | ⟨_, _, eq⟩ | ⟨_, _, eq⟩ | ⟨_, _, h, own, first, eq⟩
  · rw [eq]
    exact grows_refl s
  · rw [eq]
    exact accepted c.op.throw _ _ rfl (fun _ hx => hx) (.inl rfl)
  · rw [eq]
    exact accepted c.op.decrement.throw _ _ rfl (fun _ hx => hx) (.inl rfl)
  · rw [eq]
    have begins : h.begins = true := by
      cases h with
      | handleRead op call filePath suffix => rfl
      | nestedWrite op ioc savetype suffix buffers => exact first.elim
      | handleWrite op call filePath suffix => rfl
    exact accepted c.op _ _ rfl (fun _ hx => List.mem_append_left _ hx)
      (.inr ⟨⟨h, none⟩, List.mem_append_right _ List.mem_cons_self, own, begins⟩)

theorem performAll_grows (hs : Accounted s) (calls : List Call) : Grows s (performAll calls s) := by
  induction calls generalizing s with
  | nil => exact grows_refl s
  | cons c calls ih => exact (perform_grows c hs.counted).trans (ih (hs.perform c))

/-- The callback of an operation that is in flight leaves no operation behind unheld. -/
theorem run_grows {x : Handler} {e : Outcome} {env : Env} {o : Op} (hs : Accounted s)
    (at_op : s.state.ops[x.op]? = some o) (stage : Stage [x] o) (none : callbacks x.op s = [])
    (hr : x.run e env s = some t) : Grows s t := by
  have told {u : Session} {finalcall : Bool} {buffers : ResultType} (grows : Grows s u)
      (accounted : Accounted (if finalcall then u.modify (·.note x.op (Op.tell buffers)) else u)) :
      Grows s (invokeFinalcall x.op finalcall buffers env u) := by
    cases finalcall with
    | false => exact grows
    | true =>
      rw [if_pos rfl] at accounted
      exact (grows.trans (grows_tell x.op buffers)).trans (performAll_grows accounted env.calls)
  rcases run_cases stage hr with ⟨blank, p, u, looked, ran⟩ | ⟨_, _, _, _, _, rfl⟩
  · have grown := looked.grows
    obtain ⟨hu, at_u, none⟩ := looked.accounted hs at_op blank none
    obtain ⟨blank, _, set⟩ := looked.record blank
    rw [← set] at ran
    cases ran with
    | aside _ _ ran =>
      obtain ⟨f, aside, rfl⟩ := ran
      exact grown.trans (grows_aside x.op aside)
    | nested _ _ ran =>
      obtain ⟨savetype, suffix, buffers, rfl⟩ := ran
      exact told (grown.trans (grows_start _)) (hu.nest x.ioc at_u blank none savetype suffix buffers)
    | landed _ _ ran =>
      obtain ⟨buffers, rfl⟩ := ran
      refine told (grown.trans (grows_decrement x.op x.ioc)) ?_
      cases set : p.finalcall with
      | true => exact hu.told x.ioc at_u blank none set buffers
      | false => exact hu.decremented x.ioc at_u blank.1 blank.2.1 none (by simp [blank.2.2, set])
  · exact grows_decrement x.op x.ioc

end Grows

section Ends

variable {lib : Libp2p} {codec : IPFSLoader.Codec} {kind : Str → Saver} {loaders parsers savers : List Str} {dht : Bool}
  {files : Storage} {s t : System Manager Handler Loaders}

/-- Every operation has thrown, or a callback has been given away for it. -/
def Begun (s : System Manager Handler Loaders) : Prop :=
  ∀ (i : Nat) (p : Op), s.state.ops[i]? = some p → p.threw = true ∨
    ∃ h ∈ s.started, h.op = i ∧ h.begins = true

theorem pending_started {x : Entry Handler Outcome} (hx : x ∈ s.pending (FileManager.loaders lib codec kind)) :
    x.handler ∈ s.started := by
  obtain ⟨p, hp, rfl⟩ := List.mem_map.mp hx
  exact List.fst_mem_of_mem_zipIdx (List.mem_filter.mp hp).1

theorem Begun.grows {u : Session} (hs : Begun s) (state : u.state = s.state)
    (grows : Grows u (t.loop (FileManager.loaders lib codec kind))) (old : ∀ h ∈ s.started, h ∈ t.started) : Begun t := by
  intro i p hp
  rcases grows.ops i p hp with ⟨q, hq, kept⟩ | threw | ⟨x, hx, own⟩
  · rw [state] at hq
    rcases hs i q hq with threw | ⟨h, mem, own⟩
    · exact .inl (kept threw)
    · exact .inr ⟨h, old h mem, own⟩
  · exact .inl threw
  · exact .inr ⟨x.handler, pending_started hx, own⟩

theorem Begun.step (accounted : Accounted (s.loop (FileManager.loaders lib codec kind))) (hs : Begun s)
    (refines : System.Refines machine (FileManager.loaders lib codec kind) Handler.fits s t) : Begun t := by
  cases refines with
  | silent state started _ =>
    intro i p hp
    rw [state] at hp
    rw [started]
    exact hs i p hp
  | handled n k h e env added _ _ grown _ _ at_k run =>
    have hk : takeAt (s.loop (FileManager.loaders lib codec kind)).pool k =
        some (⟨h, none⟩, (s.pending (FileManager.loaders lib codec kind)).eraseIdx k) := by
      simp [takeAt, System.loop, at_k]
    obtain ⟨p, at_op, stage, none, left⟩ := accounted.take hk
    refine hs.grows rfl (run_grows left at_op stage none run) fun x hx => ?_
    rw [grown]
    exact List.mem_append_left _ hx
  | called c added grown _ call =>
    have performed : (c.perform (s.loop (FileManager.loaders lib codec kind))).1 =
        t.loop (FileManager.loaders lib codec kind) := Option.some.inj call
    have grows := perform_grows c accounted.counted
    rw [performed] at grows
    refine hs.grows rfl grows fun x hx => ?_
    rw [grown]
    exact List.mem_append_left _ hx

theorem reaches_begun
    (reach : Reaches (System.step machine (FileManager.loaders lib codec kind)) Free
      (begun loaders parsers savers dht files) s) : Begun s := by
  have all : s.Sound (Loaders.Fine kind) ∧ Accounted (s.loop (FileManager.loaders lib codec kind)) ∧ Begun s := by
    refine reach.invariant (P := fun s => s.Sound (Loaders.Fine kind) ∧
      Accounted (s.loop (FileManager.loaders lib codec kind)) ∧ Begun s) ?_
      ⟨begun_fine kind loaders parsers savers dht files, accounted_started loaders parsers savers, fun i p hp => by cases hp⟩
    rintro t l u ⟨sound, accounted, held⟩ _ step
    obtain ⟨next, refines⟩ := sound.step machine_begins (loaders_tell lib codec kind) step
    refine ⟨next, ?_, held.step accounted refines⟩
    exact refines.reaches.invariant (fun _ _ _ ht _ h => ht.step h) accounted
  exact all.2.2

/-- A load is left undecremented by its nested save alone: no saver was found, or it threw. -/
theorem final_undecremented {o : Outcomes} {m : Manager} {c : Load} (left : (o.final m c).decrements = 0) :
    (∃ data, o.buffers = .success data) ∧ c.save = true ∧
      (c.savetype ∉ m.savers ∧ (o.final m c).endDereferenced = true ∨
        c.savetype ∈ m.savers ∧ (o.final m c).saverThrew = true) := by
  have landed : (o.told m c).decrement.decrements ≠ 0 := Nat.succ_ne_zero _
  cases found : o.buffers with
  | failure err =>
    rw [Outcomes.final, found] at left
    exact absurd left landed
  | success data =>
    refine ⟨⟨data, rfl⟩, ?_⟩
    rw [Outcomes.final, found] at left ⊢
    dsimp only at left ⊢
    split at left
    next save =>
      refine ⟨save, ?_⟩
      rw [if_pos save]
      split at left
      next unknown =>
        rw [if_pos unknown]
        exact .inl ⟨unknown, rfl⟩
      next registered =>
        split at left
        next throws =>
          rw [if_neg registered, if_pos throws]
          exact .inr ⟨not_not.mp registered, rfl⟩
        next => exact absurd left landed
    next => exact absurd left landed

/-- Once every callback has been told, the counter counts the operations that threw, and the loads
whose data found no saver or whose nested saver threw; nothing else is left. -/
theorem system_ends
    (reach : Reaches (System.step machine (FileManager.loaders lib codec kind)) Free
      (begun loaders parsers savers dht files) s)
    (told : ∀ n, n < s.started.length → s.world.told n ≠ []) :
    s.state.outstandingOperations = s.state.ops.countP (fun p => p.decrements = 0) ∧
    ∀ (i : Nat) (p : Op), s.state.ops[i]? = some p → p.decrements = 0 →
      p.threw = true ∨ ∃ n call filePath suffix c data,
        s.started[n]? = some (.handleRead i call filePath suffix) ∧ s.world.told n = [.read c] ∧
        c.buffers = .success data ∧ call.save = true ∧
        (call.savetype ∉ savers ∧ p.endDereferenced = true ∨ call.savetype ∈ savers ∧ p.saverThrew = true) := by
  obtain ⟨_, known⟩ := reaches_known reach
  have idle : s.pending (FileManager.loaders lib codec kind) = [] := by
    apply List.map_eq_nil_iff.mpr
    apply List.filter_eq_nil_iff.mpr
    rintro ⟨h, n⟩ mem
    have at_n := List.mk_mem_zipIdx_iff_getElem?.mp mem
    have heard := told n (List.getElem?_eq_some_iff.mp at_n).1
    simpa [FileManager.loaders, World.watch] using heard
  refine ⟨known.accounted.counter, fun i p hp left => ?_⟩
  rcases reaches_begun reach i p hp with threw | ⟨h, mem, own, begins⟩
  · exact .inl threw
  · obtain ⟨n, at_n⟩ := List.mem_iff_getElem?.mp mem
    rcases known.told at_n with untold | ⟨e, heard, fit, answered⟩
    · exact absurd untold (told n (List.getElem?_eq_some_iff.mp at_n).1)
    · cases h with
      | nestedWrite op ioc savetype suffix buffers => cases begins
      | handleWrite op call filePath suffix =>
        obtain rfl : op = i := own
        cases e with
        | read c => cases fit
        | written =>
          have done : s.state.ops[op]? = some call.done := answered.1
          obtain rfl := Option.some.inj (done.symm.trans hp)
          have once : call.done.decrements = 1 := by
            unfold Save.done
            split <;> rfl
          omega
      | handleRead op call filePath suffix =>
        obtain rfl : op = i := own
        cases e with
        | written => cases fit
        | read c =>
          obtain ⟨throws, lives, _⟩ := answered
          obtain ⟨q, hq, life⟩ := lives.life
          obtain rfl := Option.some.inj (hq.symm.trans hp)
          have none : (s.loop (FileManager.loaders lib codec kind)).held (fun h => h.op = op) = [] := by
            rw [Loop.held, System.loop, idle]
            rfl
          rw [none] at life
          cases life with
          | ended =>
            obtain ⟨⟨data, found⟩, save, unsaved⟩ := final_undecremented left
            exact .inr ⟨n, call, filePath, suffix, c, data, at_n, heard, found, save, unsaved⟩

end Ends

/-- A file that is read for a caller, and a codec and a library for the other loads. -/
def manual : Load := ⟨"file://d/f".toList, false, false, 0, true, []⟩

/-- The same file, to be saved by the saver of this name. -/
def copied (savetype : Str) : Load := ⟨"file://d/f".toList, false, true, 0, true, savetype⟩

def anyCodec : IPFSLoader.Codec := ⟨fun cid => cid, fun text => some text⟩

def noFiles : Storage := ⟨fun _ => none, IPFSSaver.emptyTree⟩

/-- The file has been read and is saved, while its caller loads it again and it cannot be opened. -/
def copySteps : List (Work Env Call Move Meets) :=
  [.call (.load (copied "file".toList) false) [{}], .work (.file 0 (.finish 0 .eof)) {} [],
    .work (.file 0 (.run 0 "x".toList)) { calls := [.load manual false] }
      [{ uuid := ['u'], openings := [.tried true true, .tried true true] }, { opened := false }],
    .work (.mnn 1 (.call (.transfer 0 1))) {} [], .work (.file 2 (.run 0 [])) {} [],
    .work (.mnn 1 (.call (.complete 0 .success))) {} [], .work (.mnn 1 (.run 0 ())) {} []]

/-- The load of the file, which has been told of the data, and the save that it has begun. -/
def copyDone (s : System Manager Handler Loaders) : Bool :=
  s.started[0]? = some (.handleRead 0 (copied "file".toList) "d/f".toList []) && s.world.told 1 = [.written] &&
    s.state.outstandingOperations = 0

theorem system_answers_copied : ∃ s : System Manager Handler Loaders,
    Reaches (System.step machine (loaders IPFSDevice.plain anyCodec singletonSaver)) Free
      (begun ["file".toList] [] ["file".toList] false noFiles) s ∧ s.state.outstandingOperations = 0 ∧
    Reaches machine.step Free (started ["file".toList] [] ["file".toList])
      (s.loop (loaders IPFSDevice.plain anyCodec singletonSaver)) ∧
    ∃ p, s.state.ops[0]? = some p ∧
      LoadAnswered { loaders := ["file".toList], savers := ["file".toList] } (s.world.told 0) (copied "file".toList) p := by
  obtain ⟨s, reach, done⟩ := reaches_of_any
    (System.step machine (loaders IPFSDevice.plain anyCodec singletonSaver))
    (begun ["file".toList] [] ["file".toList] false noFiles) copySteps copyDone (by decide)
  simp only [copyDone, Bool.and_eq_true, decide_eq_true_eq] at done
  obtain ⟨⟨known, _⟩, idle⟩ := done
  exact ⟨s, reach, idle, (system_answers reach).1, (system_answers reach).2.1 0 0 _ _ _ known⟩

/-- The file has been read, and there is no such saver. -/
def unsavedSteps : List (Work Env Call Move Meets) :=
  [.call (.load (copied "mnn".toList) false) [{}], .work (.file 0 (.finish 0 .eof)) {} [],
    .work (.file 0 (.run 0 "x".toList)) {} []]

def unsavedDone (s : System Manager Handler Loaders) : Bool :=
  s.started.length = 1 && s.world.told 0 ≠ [] && s.state.ops[0]? = some ⟨0, true, 0, [], false, true, false⟩

theorem system_ends_unsaved : ∃ s : System Manager Handler Loaders,
    Reaches (System.step machine (loaders IPFSDevice.plain anyCodec singletonSaver)) Free
      (begun ["file".toList] [] ["file".toList] false noFiles) s ∧
    s.state.outstandingOperations = s.state.ops.countP (fun p => p.decrements = 0) ∧
    ∃ n call filePath suffix c data, s.started[n]? = some (.handleRead 0 call filePath suffix) ∧
      s.world.told n = [.read c] ∧ c.buffers = .success data ∧ call.save = true ∧
      call.savetype ∉ ["file".toList] := by
  obtain ⟨s, reach, done⟩ := reaches_of_any
    (System.step machine (loaders IPFSDevice.plain anyCodec singletonSaver))
    (begun ["file".toList] [] ["file".toList] false noFiles) unsavedSteps unsavedDone (by decide)
  simp only [unsavedDone, Bool.and_eq_true, decide_eq_true_eq] at done
  obtain ⟨⟨one, heard⟩, record⟩ := done
  have told (n : Nat) (known : n < s.started.length) : s.world.told n ≠ [] := by
    obtain rfl : n = 0 := by omega
    exact heard
  obtain ⟨counter, left⟩ := system_ends reach told
  refine ⟨s, reach, counter, ?_⟩
  rcases left 0 _ record rfl with threw | ⟨n, call, filePath, suffix, c, data, at_n, heard, found, save, unsaved⟩
  · cases threw
  · rcases unsaved with ⟨missing, _⟩ | ⟨_, threw⟩
    · exact ⟨n, call, filePath, suffix, c, data, at_n, heard, found, save, missing⟩
    · cases threw

end FileManager

end AsyncIOManager
