import AsyncIOManager.FileManager

namespace AsyncIOManager

open Reactor

namespace FileManager

def Op.inFlight (o : Op) : Bool := o.decrements = 0

/-- Nothing has happened to the operation yet. -/
def Op.blank (o : Op) : Prop := o.decrements = 0 ∧ o.threw = false ∧ o.finalcalls = []

/-- Callbacks held for the operation `i`. -/
def callbacks (i : Nat) (s : Session) : List Handler :=
  (s.held fun h => h.op = i).map Entry.handler

/-- The record that `h` finds when it is the first callback of an operation. -/
def Handler.first (h : Handler) (o : Op) : Prop :=
  match h with
  | handleRead _ call _ _ => o = { ioc := call.ioc, finalcall := call.finalcall }
  | handleWrite _ call _ _ => o = { ioc := call.ioc, finalcall := call.finalcall }
  | nestedWrite _ _ _ _ _ => False

/-- How the record of an operation goes with the callbacks that are held for it. -/
inductive Stage : List Handler → Op → Prop
  | first {h : Handler} {o : Op} : h.first o → Stage [h] o
  | nested {op ioc : Nat} {savetype suffix : Str} {buffers : ResultType} {o : Op} :
      o.decrements = 0 → o.threw = false → o.finalcalls.length = o.finalcall.toNat →
      Stage [.nestedWrite op ioc savetype suffix buffers] o
  | completed {o : Op} : o.decrements = 1 → o.threw = false →
      o.finalcalls.length = o.finalcall.toNat → Stage [] o
  | thrown {o : Op} : o.threw = true → o.finalcalls = [] → o.decrements ≤ 1 → Stage [] o
  | lost {o : Op} : o.decrements = 0 → o.threw = false →
      o.finalcalls.length ≤ o.finalcall.toNat → Stage [] o

/-- The counter counts the operations in flight, each of which has its own callback. -/
structure Accounted (s : Session) : Prop where
  counter : s.state.outstandingOperations = s.state.ops.countP Op.inFlight
  never : s.state.neverHappened = 0
  stages : ∀ i o, s.state.ops[i]? = some o → Stage (callbacks i s) o
  unknown : ∀ i, s.state.ops.length ≤ i → callbacks i s = []

section Callbacks

variable {i : Nat} {s : Session}

@[simp] theorem callbacks_modify (f : Manager → Manager) :
    callbacks i (s.modify f) = callbacks i s := rfl

theorem callbacks_start (h : Handler) :
    callbacks i (s.start h) = callbacks i s ++ if h.op = i then [h] else [] := by
  by_cases own : h.op = i <;> simp [callbacks, Loop.held_start, own]

end Callbacks

theorem accounted_started (loaders parsers savers : List Str) :
    Accounted (started loaders parsers savers) := by
  refine ⟨rfl, rfl, ?_, ?_⟩
  · intro i o ho
    cases ho
  · intro i _
    rfl

theorem Stage.short {hs : List Handler} {o : Op} (h : Stage hs o) : hs.length ≤ 1 := by
  cases h <;> simp

/-- An operation whose callback is taken and not followed up is lost. -/
theorem Stage.lose {hs : List Handler} {o : Op} (h : Stage hs o) : Stage [] o := by
  cases h with
  | @first h o found =>
    cases h with
    | handleRead op call filePath suffix => exact .lost (by rw [found]) (by rw [found]) (by rw [found]; simp)
    | nestedWrite op ioc savetype suffix buffers => exact found.elim
    | handleWrite op call filePath suffix => exact .lost (by rw [found]) (by rw [found]) (by rw [found]; simp)
  | nested undecremented kept told => exact .lost undecremented kept (Nat.le_of_eq told)
  | completed once kept told => exact .completed once kept told
  | thrown threw untold once => exact .thrown threw untold once
  | lost undecremented kept told => exact .lost undecremented kept told

/-- Taking a callback out of the pool leaves no other for its operation. -/
theorem Accounted.take {s : Session} (hs : Accounted s) {k : Nat} {x : Entry Handler Outcome}
    {rest : List (Entry Handler Outcome)} (hk : takeAt s.pool k = some (x, rest)) :
    ∃ o, s.state.ops[x.handler.op]? = some o ∧ Stage [x.handler] o ∧
      callbacks x.handler.op { s with pool := rest } = [] ∧ Accounted { s with pool := rest } := by
  have mem : x ∈ s.held fun h => h.op = x.handler.op :=
    List.mem_filter.mpr ⟨takeAt_mem hk, decide_eq_true rfl⟩
  have known : x.handler.op < s.state.ops.length := by
    by_contra unknown
    have none := List.map_eq_nil_iff.mp (hs.unknown _ (Nat.le_of_not_lt unknown))
    rw [none] at mem
    cases mem
  have ho : s.state.ops[x.handler.op]? = some s.state.ops[x.handler.op] := List.getElem?_eq_getElem known
  have stage := hs.stages _ _ ho
  have alone := stage.short
  rw [callbacks, List.length_map] at alone
  obtain ⟨own, gone⟩ := Loop.held_takeAt_own hk (decide_eq_true rfl) alone
  have single : callbacks x.handler.op s = [x.handler] := by rw [callbacks, own]; rfl
  have none : callbacks x.handler.op { s with pool := rest } = [] := by rw [callbacks, gone]; rfl
  rw [single] at stage
  refine ⟨_, ho, stage, none, hs.counter, hs.never, ?_, ?_⟩
  · intro i o hi
    by_cases same : x.handler.op = i
    · subst same
      rw [ho] at hi
      cases hi
      rw [none]
      exact stage.lose
    · rw [callbacks, Loop.held_takeAt_other hk (decide_eq_false same)]
      exact hs.stages i o hi
  · intro i hi
    have other : x.handler.op ≠ i := Nat.ne_of_lt (Nat.lt_of_lt_of_le known hi)
    rw [callbacks, Loop.held_takeAt_other hk (decide_eq_false other)]
    exact hs.unknown i hi

theorem Accounted.update {s t : Session} (hs : Accounted s) {i : Nat} {o : Op} {f : Op → Op}
    (at_i : s.state.ops[i]? = some o) (ops : t.state.ops = s.state.ops.modify i f)
    (counter : t.state.outstandingOperations + (if o.inFlight then 1 else 0) =
      s.state.outstandingOperations + if (f o).inFlight then 1 else 0)
    (never : t.state.neverHappened = s.state.neverHappened)
    (others : ∀ j, j ≠ i → callbacks j t = callbacks j s)
    (own : Stage (callbacks i t) (f o)) : Accounted t := by
  have known := (List.getElem?_eq_some_iff.mp at_i).1
  refine ⟨?_, never.trans hs.never, ?_, ?_⟩
  · have count := countP_modify at_i f Op.inFlight
    rw [← ops] at count
    have before := hs.counter
    cases flying : o.inFlight <;> cases flies : (f o).inFlight <;>
      simp only [flying, flies, if_true, Bool.false_eq_true, if_false] at count counter <;> omega
  · intro j p hj
    rw [ops, List.getElem?_modify] at hj
    by_cases same : i = j
    · subst same
      have same : f o = p := by simpa [at_i] using hj
      rwa [← same]
    · rw [others j (Ne.symm same)]
      exact hs.stages j p (by simpa [same] using hj)
  · intro j hj
    rw [ops, List.length_modify] at hj
    rw [others j (by omega)]
    exact hs.unknown j hj

theorem Accounted.append {s t : Session} (hs : Accounted s) {o : Op}
    (ops : t.state.ops = s.state.ops ++ [o])
    (counter : t.state.outstandingOperations =
      s.state.outstandingOperations + if o.inFlight then 1 else 0)
    (never : t.state.neverHappened = s.state.neverHappened)
    (others : ∀ j, j ≠ s.state.ops.length → callbacks j t = callbacks j s)
    (own : Stage (callbacks s.state.ops.length t) o) : Accounted t := by
  refine ⟨?_, never.trans hs.never, ?_, ?_⟩
  · rw [counter, hs.counter, ops, List.countP_append, List.countP_singleton]
    by_cases flight : o.inFlight = true <;> simp [flight]
  · intro j p hj
    by_cases new : j = s.state.ops.length
    · subst new
      rw [ops, List.getElem?_concat_length] at hj
      rwa [← Option.some.inj hj]
    · rw [others j new]
      apply hs.stages
      rw [ops] at hj
      have lt : j < (s.state.ops ++ [o]).length := (List.getElem?_eq_some_iff.mp hj).1
      rw [List.length_append, List.length_singleton] at lt
      rwa [List.getElem?_append_left (by omega)] at hj
  · intro j hj
    rw [ops, List.length_append, List.length_singleton] at hj
    rw [others j (by omega)]
    exact hs.unknown j (by omega)

theorem modify_note_id (op : Nat) (s : Session) : s.modify (·.note op id) = s := by
  simp [Loop.modify, Manager.note]

theorem note_increment (o : Op) (f : Op → Op) (m : Manager) :
    (incrementOutstandingOperations o m).note m.ops.length f = incrementOutstandingOperations (f o) m := by
  simp [incrementOutstandingOperations, Manager.note, modify_concat_length]

theorem decrement_eq {m : Manager} (op ioc : Nat) (busy : 0 < m.outstandingOperations) :
    decrementOutstandingOperations op ioc m =
      { m with
        ops := m.ops.modify op Op.decrement
        outstandingOperations := m.outstandingOperations - 1
        stopped := m.stopped ++ if m.outstandingOperations = 1 then [ioc] else [] } := by
  simp only [decrementOutstandingOperations, Manager.note]
  by_cases last : m.outstandingOperations = 1
  · simp [last]
  · have more : ¬ m.outstandingOperations - 1 = 0 := by omega
    simp [last, more, busy]

def Call.accepted (m : Manager) : Call → Bool
  | load c _ => (getURLComponents c.url).2.pre ∈ m.loaders
  | save c _ => (getURLComponents c.url).2.pre ∈ m.savers

def Call.op : Call → Op
  | load c _ => { ioc := c.ioc, finalcall := c.finalcall }
  | save c _ => { ioc := c.ioc, finalcall := c.finalcall }

def Call.throws : Call → Bool
  | load _ loaderThrows => loaderThrows
  | save _ saverThrows => saverThrows

theorem decrement_increment (o : Op) (ioc : Nat) {m : Manager} (counted : 0 ≤ m.outstandingOperations) :
    (decrementOutstandingOperations m.ops.length ioc (incrementOutstandingOperations o m)).note
      m.ops.length Op.throw =
      { m with
        ops := m.ops ++ [o.decrement.throw]
        stopped := m.stopped ++ if m.outstandingOperations = 0 then [ioc] else [] } := by
  have busy : 0 < (incrementOutstandingOperations o m).outstandingOperations := by
    simp only [incrementOutstandingOperations]
    omega
  rw [decrement_eq _ _ busy]
  have twice : ((m.ops ++ [o]).modify m.ops.length Op.decrement).modify m.ops.length Op.throw =
      m.ops ++ [o.decrement.throw] := by
    rw [modify_concat_length, modify_concat_length]
  have last : m.outstandingOperations + 1 = 1 ↔ m.outstandingOperations = 0 := by omega
  simp [incrementOutstandingOperations, Manager.note, twice, last]

/-- Everything that a call can do. -/
theorem perform_cases (c : Call) {s : Session} (counted : 0 ≤ s.state.outstandingOperations) :
    (c.accepted s.state = false ∧ c.perform s = (s, .rangeError)) ∨
    (c.accepted s.state = true ∧ (∃ l, c = .load l true) ∧ c.perform s =
      (s.modify (incrementOutstandingOperations c.op.throw), .handlerThrew)) ∨
    (c.accepted s.state = true ∧ (∃ v, c = .save v true) ∧ c.perform s = (s.modify fun m => { m with
        ops := m.ops ++ [c.op.decrement.throw]
        stopped := m.stopped ++ if m.outstandingOperations = 0 then [c.op.ioc] else [] },
      .handlerThrew)) ∨
    (c.accepted s.state = true ∧ c.throws = false ∧
      ∃ h : Handler, h.op = s.state.ops.length ∧ h.first c.op ∧ c.perform s =
        ((s.modify (incrementOutstandingOperations c.op)).start h, .returned)) := by
  cases c with
  | load c throws =>
    by_cases registered : (getURLComponents c.url).2.pre ∈ s.state.loaders
    · have found : Call.accepted s.state (.load c throws) = true := decide_eq_true registered
      cases throws with
      | true =>
        refine .inr (.inl ⟨found, ⟨c, rfl⟩, ?_⟩)
        rw [Call.perform, loadASync, if_pos registered, if_pos rfl]
        exact congrArg (fun m => ((⟨m, s.pool⟩ : Session), Exit.handlerThrew)) (note_increment _ _ _)
      | false =>
        refine .inr (.inr (.inr ⟨found, rfl, .handleRead s.state.ops.length c
          (getURLComponents c.url).2.base (getURLComponents c.url).2.extension, rfl, rfl, ?_⟩))
        rw [Call.perform, loadASync, if_pos registered]
        rfl
    · exact .inl ⟨decide_eq_false registered, if_neg registered⟩
  | save c throws =>
    by_cases registered : (getURLComponents c.url).2.pre ∈ s.state.savers
    · have found : Call.accepted s.state (.save c throws) = true := decide_eq_true registered
      cases throws with
      | true =>
        refine .inr (.inr (.inl ⟨found, ⟨c, rfl⟩, ?_⟩))
        rw [Call.perform, saveASync, if_pos registered, if_pos rfl]
        exact congrArg (fun m => ((⟨m, s.pool⟩ : Session), Exit.handlerThrew))
          (decrement_increment _ _ counted)
      | false =>
        refine .inr (.inr (.inr ⟨found, rfl, .handleWrite s.state.ops.length c
          (getURLComponents c.url).2.base (getURLComponents c.url).2.extension, rfl, rfl, ?_⟩))
        rw [Call.perform, saveASync, if_pos registered]
        rfl
    · exact .inl ⟨decide_eq_false registered, if_neg registered⟩

/-- A call that is rejected changes nothing. -/
theorem perform_rangeError (c : Call) (s : Session) (h : (c.perform s).2 = .rangeError) :
    (c.perform s).1 = s := by
  cases c with
  | load c throws =>
    by_cases registered : (getURLComponents c.url).2.pre ∈ s.state.loaders
    · rw [Call.perform, loadASync, if_pos registered] at h
      cases throws <;> cases h
    · rw [Call.perform, loadASync, if_neg registered]
  | save c throws =>
    by_cases registered : (getURLComponents c.url).2.pre ∈ s.state.savers
    · rw [Call.perform, saveASync, if_pos registered] at h
      cases throws <;> cases h
    · rw [Call.perform, saveASync, if_neg registered]

theorem Accounted.counted {s : Session} (hs : Accounted s) : 0 ≤ s.state.outstandingOperations := by
  have counter := hs.counter
  omega

theorem Accounted.perform {s : Session} (hs : Accounted s) (c : Call) : Accounted (c.perform s).1 := by
  have fresh : c.op.inFlight = true := by cases c <;> rfl
  have blank : c.op.finalcalls = [] ∧ c.op.decrements = 0 := by cases c <;> exact ⟨rfl, rfl⟩
  have unknown : callbacks s.state.ops.length s = [] := hs.unknown _ (Nat.le_refl _)
  rcases perform_cases c hs.counted with ⟨_, eq⟩ | ⟨_, _, eq⟩ | ⟨_, _, eq⟩ | ⟨_, _, h, own, first, eq⟩
  · rw [eq]
    exact hs
  · rw [eq]
    refine hs.append rfl ?_ rfl (fun _ _ => rfl) ?_
    · have flying : c.op.throw.inFlight = true := fresh
      simp [incrementOutstandingOperations, flying]
    · change Stage (callbacks s.state.ops.length s) _
      rw [unknown]
      exact .thrown rfl blank.1 (by simp [Op.throw, blank.2])
  · rw [eq]
    refine hs.append rfl ?_ rfl (fun _ _ => rfl) ?_
    · have landed : c.op.decrement.throw.inFlight = false := by simp [Op.inFlight, Op.decrement, Op.throw]
      simp [landed]
    · change Stage (callbacks s.state.ops.length s) _
      rw [unknown]
      exact .thrown rfl blank.1 (by simp [Op.throw, Op.decrement, blank.2])
  · rw [eq]
    refine hs.append rfl ?_ rfl ?_ ?_
    · simp [incrementOutstandingOperations, fresh]
    · intro j other
      rw [callbacks_start, if_neg (by omega), List.append_nil, callbacks_modify]
    · rw [callbacks_start, if_pos own, callbacks_modify, unknown]
      exact .first first

theorem Accounted.performAll {s : Session} (hs : Accounted s) (calls : List Call) :
    Accounted (performAll calls s) := by
  induction calls generalizing s with
  | nil => exact hs
  | cons c calls ih => exact ih (hs.perform c)

theorem Accounted.invokeFinalcall {s : Session} {op : Nat} {finalcall : Bool} {buffers : ResultType}
    {env : Env} (hs : Accounted (if finalcall then s.modify (·.note op (Op.tell buffers)) else s)) :
    Accounted (invokeFinalcall op finalcall buffers env s) := by
  cases finalcall with
  | false => exact hs
  | true => exact Accounted.performAll hs env.calls

theorem Accounted.busy {s : Session} (hs : Accounted s) {i : Nat} {o : Op}
    (at_i : s.state.ops[i]? = some o) (flying : o.inFlight = true) :
    0 < s.state.outstandingOperations := by
  have mem : o ∈ s.state.ops := List.mem_of_getElem? at_i
  have pos : 0 < s.state.ops.countP Op.inFlight := List.countP_pos_iff.mpr ⟨o, mem, flying⟩
  have counter := hs.counter
  omega

/-- The decrement of an operation in flight, and what is noted about it next. -/
theorem Accounted.decrement {s : Session} (hs : Accounted s) {op : Nat} {o : Op} (ioc : Nat)
    (at_op : s.state.ops[op]? = some o) (flying : o.inFlight = true) {f : Op → Op}
    (once : (f o.decrement).decrements = 1) (own : Stage (callbacks op s) (f o.decrement)) :
    Accounted ((s.modify (decrementOutstandingOperations op ioc)).modify (·.note op f)) := by
  have eq := decrement_eq (m := s.state) op ioc (hs.busy at_op flying)
  have landed : (f o.decrement).inFlight = false := by simp [Op.inFlight, once]
  refine hs.update (f := f ∘ Op.decrement) at_op ?_ ?_ ?_ (fun _ _ => rfl) own
  · simp only [Loop.modify_state, eq, Manager.note, List.modify_modify_eq]
  · simp [eq, Manager.note, flying, landed]
  · simp [eq, Manager.note]

section Settle

variable {s : Session} {op : Nat} {o : Op}

theorem Accounted.told (hs : Accounted s) (ioc : Nat) (at_op : s.state.ops[op]? = some o)
    (blank : o.blank) (none : callbacks op s = []) (set : o.finalcall = true) (buffers : ResultType) :
    Accounted ((s.modify (decrementOutstandingOperations op ioc)).modify (·.note op (Op.tell buffers))) := by
  obtain ⟨undecremented, kept, untold⟩ := blank
  have flying : o.inFlight = true := by simp [Op.inFlight, undecremented]
  have once : (o.decrement.tell buffers).decrements = 1 := by simp [Op.tell, Op.decrement, undecremented]
  refine hs.decrement ioc at_op flying once ?_
  rw [none]
  exact .completed once kept (by simp [Op.tell, Op.decrement, untold, set])

theorem Accounted.decremented (hs : Accounted s) (ioc : Nat) (at_op : s.state.ops[op]? = some o)
    (undecremented : o.decrements = 0) (kept : o.threw = false) (none : callbacks op s = [])
    (told : o.finalcalls.length = o.finalcall.toNat) :
    Accounted (s.modify (decrementOutstandingOperations op ioc)) := by
  have flying : o.inFlight = true := by simp [Op.inFlight, undecremented]
  have once : (id o.decrement).decrements = 1 := by simp [Op.decrement, undecremented]
  have plain := hs.decrement (f := id) ioc at_op flying once (by
    rw [none]
    exact .completed once kept told)
  rwa [modify_note_id] at plain

theorem Accounted.settle (hs : Accounted s) (ioc : Nat) (at_op : s.state.ops[op]? = some o)
    (blank : o.blank) (none : callbacks op s = []) (buffers : ResultType) (env : Env) :
    Accounted (FileManager.invokeFinalcall op o.finalcall buffers env
      (s.modify (decrementOutstandingOperations op ioc))) := by
  apply Accounted.invokeFinalcall
  cases set : o.finalcall with
  | true => exact hs.told ioc at_op blank none set buffers
  | false => exact hs.decremented ioc at_op blank.1 blank.2.1 none (by simp [blank.2.2, set])

/-- The nested save is started, and then the caller is told. -/
theorem Accounted.nest (hs : Accounted s) (ioc : Nat) (at_op : s.state.ops[op]? = some o)
    (blank : o.blank) (none : callbacks op s = []) (savetype suffix : Str) (buffers : ResultType) :
    Accounted (if o.finalcall then (s.start (.nestedWrite op ioc savetype suffix buffers)).modify
      (·.note op (Op.tell buffers)) else s.start (.nestedWrite op ioc savetype suffix buffers)) := by
  obtain ⟨undecremented, kept, untold⟩ := blank
  have others (j : Nat) (other : j ≠ op) :
      callbacks j (s.start (.nestedWrite op ioc savetype suffix buffers)) = callbacks j s := by
    simp [callbacks_start, Handler.op, Ne.symm other]
  have own : callbacks op (s.start (.nestedWrite op ioc savetype suffix buffers)) =
      [.nestedWrite op ioc savetype suffix buffers] := by
    simp [callbacks_start, Handler.op, none]
  cases set : o.finalcall with
  | true =>
    refine hs.update (f := Op.tell buffers) at_op rfl rfl rfl others ?_
    rw [if_pos rfl, callbacks_modify, own]
    exact .nested undecremented kept (by simp [Op.tell, untold, set])
  | false =>
    refine hs.update (f := id) at_op ?_ rfl rfl others ?_
    · simp
    · rw [if_neg (by simp), own]
      exact .nested undecremented kept (by simp [untold, set])

end Settle

/-- A note that the counter, the callbacks and the caller have nothing to do with. -/
structure Op.Aside (f : Op → Op) : Prop where
  ioc : ∀ o, (f o).ioc = o.ioc
  finalcall : ∀ o, (f o).finalcall = o.finalcall
  decrements : ∀ o, (f o).decrements = o.decrements
  finalcalls : ∀ o, (f o).finalcalls = o.finalcalls
  threw : ∀ o, (f o).threw = o.threw

theorem dereferenceEnd_aside : Op.Aside Op.dereferenceEnd :=
  ⟨fun _ => rfl, fun _ => rfl, fun _ => rfl, fun _ => rfl, fun _ => rfl⟩

theorem failSave_aside : Op.Aside Op.failSave :=
  ⟨fun _ => rfl, fun _ => rfl, fun _ => rfl, fun _ => rfl, fun _ => rfl⟩

theorem Op.Aside.blank {f : Op → Op} (aside : Op.Aside f) {o : Op} (blank : o.blank) : (f o).blank := by
  obtain ⟨undecremented, kept, untold⟩ := blank
  exact ⟨(aside.decrements o).trans undecremented, (aside.threw o).trans kept, (aside.finalcalls o).trans untold⟩

/-- The session and the record once the parser has been looked up. -/
inductive Looked (op : Nat) (o : Op) (s : Session) : Op → Session → Prop
  | found : Looked op o s o s
  | missing : Looked op o s o.dereferenceEnd (s.modify (·.note op Op.dereferenceEnd))

theorem findParser_looked (op : Nat) (o : Op) (parse : Bool) (s : Session) :
    ∃ p, Looked op o s p (findParser op parse s) := by
  unfold findParser
  split
  · exact ⟨_, .missing⟩
  · exact ⟨_, .found⟩

section Looked

variable {s u : Session} {op : Nat} {o p : Op}

theorem Accounted.noted (hs : Accounted s) (at_op : s.state.ops[op]? = some o) (blank : o.blank)
    (none : callbacks op s = []) {f : Op → Op} (aside : Op.Aside f) : Accounted (s.modify (·.note op f)) := by
  obtain ⟨undecremented, kept, untold⟩ := aside.blank blank
  have flight : (f o).inFlight = o.inFlight := by simp [Op.inFlight, aside.decrements]
  refine hs.update at_op rfl (by rw [flight]; rfl) rfl (fun _ _ => rfl) ?_
  rw [callbacks_modify, none]
  exact .lost undecremented kept (by simp [untold])

/-- Looking the parser up leaves the callbacks, the counter and the registries alone. -/
theorem Looked.same (looked : Looked op o s p u) : u.pool = s.pool ∧ u.state.loaders = s.state.loaders ∧
    u.state.savers = s.state.savers ∧ u.state.outstandingOperations = s.state.outstandingOperations ∧
    u.state.stopped = s.state.stopped := by
  cases looked <;> exact ⟨rfl, rfl, rfl, rfl, rfl⟩

theorem Looked.record (looked : Looked op o s p u) (blank : o.blank) :
    p.blank ∧ p.ioc = o.ioc ∧ p.finalcall = o.finalcall := by
  cases looked with
  | found => exact ⟨blank, rfl, rfl⟩
  | missing => exact ⟨dereferenceEnd_aside.blank blank, rfl, rfl⟩

theorem Looked.accounted (looked : Looked op o s p u) (hs : Accounted s) (at_op : s.state.ops[op]? = some o)
    (blank : o.blank) (none : callbacks op s = []) :
    Accounted u ∧ u.state.ops[op]? = some p ∧ callbacks op u = [] := by
  cases looked with
  | found => exact ⟨hs, at_op, none⟩
  | missing =>
    refine ⟨hs.noted at_op blank none dereferenceEnd_aside, ?_, none⟩
    simp [Manager.note, at_op]

end Looked

/-- Whether the handler runs the decrement of its operation. -/
def Handler.lands : Handler → Outcome → Bool
  | handleRead .., .read ⟨.failure _, _, _⟩ => true
  | handleRead .., .read ⟨.success _, _, save⟩ => !save
  | nestedWrite .., .written => true
  | handleWrite .., .written => true
  | _, _ => false

/-- Whether the handler runs its decrement and then its `finalcall`. -/
def Handler.settles : Handler → Outcome → Bool
  | handleRead _ call _ _, .read ⟨.failure _, _, _⟩ => call.finalcall
  | handleRead _ call _ _, .read ⟨.success _, _, save⟩ => if save then false else call.finalcall
  | handleWrite _ call _ _, .written => call.finalcall
  | _, _ => false

def Handler.ioc : Handler → Nat
  | handleRead _ call _ _ => call.ioc
  | nestedWrite _ ioc _ _ _ => ioc
  | handleWrite _ call _ _ => call.ioc

/-- Everything that the first callback of an operation can do. -/
inductive Ran (x : Handler) (finalcall : Bool) (e : Outcome) (env : Env) (u t : Session) : Prop
  | aside : x.lands e = false → x.settles e = false → (∃ f, Op.Aside f ∧ t = u.modify (·.note x.op f)) →
      Ran x finalcall e env u t
  | nested : x.lands e = false → x.settles e = false → (∃ savetype suffix buffers, t = invokeFinalcall x.op finalcall
      buffers env (u.start (.nestedWrite x.op x.ioc savetype suffix buffers))) → Ran x finalcall e env u t
  | landed : x.lands e = true → x.settles e = finalcall → (∃ buffers, t = invokeFinalcall x.op finalcall
      buffers env (u.modify (decrementOutstandingOperations x.op x.ioc))) → Ran x finalcall e env u t

/-- Everything that a callback can do. -/
theorem run_cases {s t : Session} {x : Handler} {o : Op} (stage : Stage [x] o) {e : Outcome} {env : Env}
    (hr : x.run e env s = some t) :
    (o.blank ∧ ∃ p u, Looked x.op o s p u ∧ Ran x o.finalcall e env u t) ∨
    (o.decrements = 0 ∧ o.threw = false ∧ o.finalcalls.length = o.finalcall.toNat ∧ x.lands e = true ∧
      x.settles e = false ∧ t = s.modify (decrementOutstandingOperations x.op x.ioc)) := by
  cases stage with
  | first found =>
    cases x with
    | handleRead op call filePath suffix =>
      obtain rfl := found
      cases e with
      | read c =>
        obtain rfl := Option.some.inj hr
        obtain ⟨buffers, parse, save⟩ := c
        refine .inl ⟨⟨rfl, rfl, rfl⟩, ?_⟩
        cases buffers with
        | failure err => exact ⟨_, _, .found, .landed rfl rfl ⟨_, rfl⟩⟩
        | success data =>
          obtain ⟨p, looked⟩ := findParser_looked op { ioc := call.ioc, finalcall := call.finalcall } parse s
          refine ⟨p, _, looked, ?_⟩
          cases save with
          | false => exact .landed rfl rfl ⟨_, rfl⟩
          | true =>
            by_cases unsaved : call.savetype ∉ (findParser op parse s).state.savers
            · exact .aside rfl rfl ⟨_, dereferenceEnd_aside, if_pos unsaved⟩
            · cases throws : env.saverThrows with
              | true =>
                exact .aside rfl rfl ⟨_, failSave_aside, (if_neg unsaved).trans (if_pos throws)⟩
              | false =>
                refine .nested rfl rfl ⟨call.savetype, suffix, .success data, ?_⟩
                exact (if_neg unsaved).trans (if_neg (by simp [throws]))
      | written => cases hr
    | nestedWrite op ioc savetype suffix buffers => exact found.elim
    | handleWrite op call filePath suffix =>
      obtain rfl := found
      cases e with
      | read c => cases hr
      | written =>
        obtain rfl := Option.some.inj hr
        exact .inl ⟨⟨rfl, rfl, rfl⟩, _, _, .found, .landed rfl rfl ⟨_, rfl⟩⟩
  | nested undecremented kept told =>
    cases e with
    | read c => cases hr
    | written =>
      obtain rfl := Option.some.inj hr
      exact .inr ⟨undecremented, kept, told, rfl, rfl, rfl⟩

theorem Accounted.run {s t : Session} {x : Handler} {o : Op} (hs : Accounted s)
    (at_op : s.state.ops[x.op]? = some o) (stage : Stage [x] o) (none : callbacks x.op s = [])
    {e : Outcome} {env : Env} (hr : x.run e env s = some t) : Accounted t := by
  rcases run_cases stage hr with ⟨blank, p, u, looked, ran⟩ | ⟨undecremented, kept, told, _, _, rfl⟩
  · obtain ⟨hu, at_u, none⟩ := looked.accounted hs at_op blank none
    obtain ⟨blank, _, set⟩ := looked.record blank
    rw [← set] at ran
    cases ran with
    | aside _ _ ran =>
      obtain ⟨f, aside, rfl⟩ := ran
      exact hu.noted at_u blank none aside
    | nested _ _ ran =>
      obtain ⟨savetype, suffix, buffers, rfl⟩ := ran
      exact (hu.nest x.ioc at_u blank none savetype suffix buffers).invokeFinalcall
    | landed _ _ ran =>
      obtain ⟨buffers, rfl⟩ := ran
      exact hu.settle x.ioc at_u blank none buffers env
  · exact hs.decremented x.ioc at_op undecremented kept none told

theorem Accounted.step {s t : Session} {l : Label Outcome Env Call} (hs : Accounted s)
    (h : machine.step s l = some t) : Accounted t := by
  rcases Machine.step_cases h with ⟨k, e, x, _, hk, _, rfl⟩ | ⟨k, env, x, e, rest, _, hk, hr⟩ | ⟨c, _, hr⟩
  · have same (i : Nat) : callbacks i { s with pool := s.pool.set k ⟨x, some e⟩ } = callbacks i s :=
      Loop.held_handlers_finish hk
    refine ⟨hs.counter, hs.never, fun i o ho => ?_, fun i hi => ?_⟩
    · rw [same]
      exact hs.stages i o ho
    · rw [same]
      exact hs.unknown i hi
  · obtain ⟨o, at_op, stage, none, left⟩ := hs.take hk
    exact left.run at_op stage none hr
  · cases Option.some.inj hr
    exact hs.perform c

theorem reaches_accounted {loaders parsers savers : List Str} {s : Session}
    (reach : Reaches machine.step Free (started loaders parsers savers) s) : Accounted s :=
  reach.invariant (fun _ _ _ ht _ hstep => ht.step hstep) (accounted_started loaders parsers savers)

theorem Stage.counts {hs : List Handler} {o : Op} (h : Stage hs o) :
    o.decrements ≤ 1 ∧ (o.decrements = 1 → o.threw = false → o.finalcall = true → o.finalcalls.length = 1) ∧
      (o.threw = true → o.finalcalls = []) := by
  cases h with
  | @first x o found =>
    have blank : o.decrements = 0 ∧ o.finalcalls = [] := by
      cases x with
      | handleRead op call filePath suffix => rw [found]; exact ⟨rfl, rfl⟩
      | nestedWrite op ioc savetype suffix buffers => exact found.elim
      | handleWrite op call filePath suffix => rw [found]; exact ⟨rfl, rfl⟩
    exact ⟨by omega, fun once => by omega, fun _ => blank.2⟩
  | nested undecremented kept told =>
    exact ⟨by omega, fun once => by omega, fun threw => by simp [kept] at threw⟩
  | completed once kept told =>
    refine ⟨by omega, fun _ _ set => ?_, fun threw => by simp [kept] at threw⟩
    rw [told, set]
    rfl
  | thrown threw untold once => exact ⟨once, fun _ kept => by simp [threw] at kept, fun _ => untold⟩
  | lost undecremented kept told =>
    exact ⟨by omega, fun once => by omega, fun threw => by simp [kept] at threw⟩

def page : Load := ⟨"https://h/p".toList, false, true, 0, true, "file".toList⟩

def copy : Save := ⟨"file://d/".toList, .success none, 0, true⟩

/-- A load is saved, and its `finalcall` makes a save that throws and a further load. -/
def reloaded : Session where
  state := {
    loaders := ["https".toList]
    savers := ["file".toList]
    outstandingOperations := 1
    ops := [⟨0, true, 1, [.success none], false, false, false⟩, ⟨0, true, 1, [], true, false, false⟩,
      ⟨0, true, 0, [], false, false, false⟩] }
  pool := [⟨.handleRead 2 page "h/p".toList [], none⟩]

theorem reaches_reloaded :
    Reaches machine.step Free (started ["https".toList] [] ["file".toList]) reloaded :=
  reaches_of_exec (show exec machine.step (started ["https".toList] [] ["file".toList])
    [.call (.load page false), .finish 0 (.read ⟨.success none, false, true⟩),
      .run 0 { calls := [.save copy true, .load page false] }, .finish 0 .written, .run 0 {}] =
    some reloaded by decide)

end FileManager

end AsyncIOManager
