import AsyncIOManager.ContextStop

namespace AsyncIOManager

open Reactor

namespace FileManager

/-- How many operations on the context `i` have been completed. -/
def landed (m : Manager) (i : Nat) : Nat := m.ops.countP fun o => !o.inFlight && o.ioc = i

/-- Every callback holds the context of its operation. -/
def Owned (s : Session) : Prop :=
  ∀ x ∈ s.pool, ∀ o, s.state.ops[x.handler.op]? = some o → o.ioc = x.handler.ioc

theorem Handler.first_ioc {h : Handler} {o : Op} (first : h.first o) : o.ioc = h.ioc := by
  cases h with
  | handleRead op call filePath suffix => rw [show o = _ from first]; rfl
  | nestedWrite op ioc savetype suffix buffers => exact first.elim
  | handleWrite op call filePath suffix => rw [show o = _ from first]; rfl

theorem map_ioc_modify (ops : List Op) (i : Nat) {f : Op → Op} (kept : ∀ o, (f o).ioc = o.ioc) :
    (ops.modify i f).map Op.ioc = ops.map Op.ioc := by
  refine List.ext_getElem? fun j => ?_
  rw [List.getElem?_map, List.getElem?_map, List.getElem?_modify]
  cases ops[j]? with
  | none => rfl
  | some o => by_cases here : i = j <;> simp [here, kept]

/-- The session in which a callback runs or leaves its decrement: the parser has been looked up,
if it is one that does so. -/
structure Readied (x : Handler) (o : Op) (s : Session) (p : Op) (u : Session) : Prop where
  accounted : Accounted u
  at_op : u.state.ops[x.op]? = some p
  none : callbacks x.op u = []
  flying : p.inFlight = true
  ioc : p.ioc = o.ioc
  pool : u.pool = s.pool
  loaders : u.state.loaders = s.state.loaders
  savers : u.state.savers = s.state.savers
  counter : u.state.outstandingOperations = s.state.outstandingOperations
  stopped : u.state.stopped = s.state.stopped
  iocs : u.state.ops.map Op.ioc = s.state.ops.map Op.ioc
  landed : ∀ i, landed u.state i = landed s.state i

theorem Looked.landed {op : Nat} {o p : Op} {s u : Session} (looked : Looked op o s p u)
    (at_op : s.state.ops[op]? = some o) (i : Nat) : landed u.state i = landed s.state i := by
  cases looked with
  | found => rfl
  | missing => exact Nat.add_right_cancel (countP_modify at_op Op.dereferenceEnd fun o => !o.inFlight && o.ioc = i)

theorem Looked.readied {x : Handler} {o p : Op} {s u : Session} (looked : Looked x.op o s p u) (hs : Accounted s)
    (at_op : s.state.ops[x.op]? = some o) (blank : o.blank) (none : callbacks x.op s = []) :
    Readied x o s p u := by
  obtain ⟨hu, at_u, gone⟩ := looked.accounted hs at_op blank none
  obtain ⟨fresh, ioc, _⟩ := looked.record blank
  obtain ⟨pool, loaders, savers, counter, stopped⟩ := looked.same
  refine ⟨hu, at_u, gone, by simp [Op.inFlight, fresh.1], ioc, pool, loaders, savers, counter, stopped, ?_,
    looked.landed at_op⟩
  cases looked with
  | found => rfl
  | missing => exact map_ioc_modify s.state.ops x.op dereferenceEnd_aside.ioc

/-- A callback that runs its decrement does so first, and tells the caller if it settles. -/
theorem run_landed {s t : Session} {x : Handler} {o : Op} (hs : Accounted s)
    (at_op : s.state.ops[x.op]? = some o) (stage : Stage [x] o) (none : callbacks x.op s = [])
    {e : Outcome} {env : Env} (hr : x.run e env s = some t) :
    ∃ p u, Readied x o s p u ∧
      (x.lands e = false ∧ p.blank ∧ ((∃ f, Op.Aside f ∧ t = u.modify (·.note x.op f)) ∨
        ∃ savetype suffix buffers, t = invokeFinalcall x.op p.finalcall buffers env
          (u.start (.nestedWrite x.op x.ioc savetype suffix buffers))) ∨
      x.lands e = true ∧
        (p.blank ∧ x.settles e = p.finalcall ∨
          x.settles e = false ∧ p.decrements = 0 ∧ p.threw = false ∧ p.finalcalls.length = p.finalcall.toNat) ∧
        ∃ buffers, t = invokeFinalcall x.op (x.settles e) buffers env
          (u.modify (decrementOutstandingOperations x.op x.ioc))) := by
  rcases run_cases stage hr with ⟨blank, p, u, looked, ran⟩ | ⟨undecremented, kept, told, lands, unsettled, rfl⟩
  · have readied := looked.readied hs at_op blank none
    obtain ⟨blank, _, set⟩ := looked.record blank
    rw [← set] at ran
    refine ⟨p, u, readied, ?_⟩
    cases ran with
    | aside stays _ ran => exact .inl ⟨stays, blank, .inl ran⟩
    | nested stays _ ran => exact .inl ⟨stays, blank, .inr ran⟩
    | landed lands settles ran => exact .inr ⟨lands, .inl ⟨blank, settles⟩, settles ▸ ran⟩
  · refine ⟨o, s, ?_, .inr ⟨lands, .inr ⟨unsettled, undecremented, kept, told⟩, .success .none, ?_⟩⟩
    · exact ⟨hs, at_op, none, by simp [Op.inFlight, undecremented], rfl, rfl, rfl, rfl, rfl, rfl, rfl, fun _ => rfl⟩
    · rw [unsettled]
      rfl

/-- The counter is the number of contexts in flight. -/
theorem Accounted.contexts {s : Session} (hs : Accounted s) :
    s.state.outstandingOperations = (contexts s.state).length := by
  rw [hs.counter, FileManager.contexts, List.length_map, List.countP_eq_length_filter]

theorem landed_append {m n : Manager} {o : Op} (ops : n.ops = m.ops ++ [o]) (i : Nat) :
    landed n i = landed m i + if !o.inFlight && o.ioc = i then 1 else 0 := by
  rw [landed, ops, List.countP_append, List.countP_singleton]
  rfl

/-- A call completes an operation only when it is a save that throws. -/
theorem landed_perform {s : Session} (hs : Accounted s) (c : Call) (i : Nat) :
    landed (c.perform s).1.state i = landed s.state i + (c.fails s.state).toList.count i := by
  rcases perform_cases c hs.counted with
    ⟨no, eq⟩ | ⟨yes, ⟨l, rfl⟩, eq⟩ | ⟨yes, ⟨v, rfl⟩, eq⟩ | ⟨yes, kept, h, _, _, eq⟩
  · rw [eq, (Call.rejected no).2]
    rfl
  · rw [eq]
    exact landed_append (o := (Call.load l true).op.throw) rfl i
  · have failed : (Call.save v true).fails s.state = some v.ioc := by simp [Call.fails, yes]
    rw [eq, failed]
    refine (landed_append (o := (Call.save v true).op.decrement.throw) rfl i).trans ?_
    by_cases own : v.ioc = i <;> simp [Op.inFlight, Op.decrement, Op.throw, Call.op, own]
  · have flying : c.op.inFlight = true := by cases c <;> rfl
    rw [eq, Call.unfailed (Call.left yes kept)]
    refine (landed_append (m := s.state) (n := incrementOutstandingOperations c.op s.state) rfl i).trans ?_
    simp [flying]

theorem landed_performAll {s : Session} (hs : Accounted s) (calls : List Call) (i : Nat) :
    landed (performAll calls s).state i =
      landed s.state i + (calls.filterMap (Call.fails s.state)).count i := by
  induction calls generalizing s with
  | nil => rfl
  | cons c calls ih =>
    have effect := perform_effect hs c
    have same := (leaves_congr effect.loaders effect.savers).2
    change landed (performAll calls (c.perform s).1).state i = _
    rw [ih (hs.perform c), landed_perform hs, same]
    cases failed : c.fails s.state with
    | none => simp [failed]
    | some v =>
      rw [List.filterMap_cons_some failed, List.count_cons]
      simp only [Option.toList, List.count_singleton]
      omega

/-- When no call leaves an operation in flight, every save that throws stops its context. -/
theorem stops_all {m : Manager} {calls : List Call} (none : calls.filterMap (Call.leaves m) = []) :
    stops m calls = calls.filterMap (Call.fails m) := by
  have all : ∀ c ∈ calls, (c.leaves m).isNone = true := by
    intro c hc
    rw [List.filterMap_eq_nil_iff] at none
    simp [none c hc]
  rw [stops, List.takeWhile_eq_self_iff.mpr all]

theorem invokeFinalcall_performAll (op : Nat) (finalcall : Bool) (buffers : ResultType) (env : Env) (s : Session) :
    invokeFinalcall op finalcall buffers env s =
      performAll (if finalcall then env.calls else []) (invokeFinalcall op finalcall buffers {} s) := by
  cases finalcall <;> rfl

/-- What the decrement of an operation has changed when its caller has been told. -/
theorem decrement_told {s : Session} (hs : Accounted s) {op ioc : Nat} {o : Op}
    (at_op : s.state.ops[op]? = some o) (flying : o.inFlight = true) (own : o.ioc = ioc)
    (finalcall : Bool) (buffers : ResultType) :
    let u := invokeFinalcall op finalcall buffers {} (s.modify (decrementOutstandingOperations op ioc))
    u.state.loaders = s.state.loaders ∧ u.state.savers = s.state.savers ∧
      u.state.outstandingOperations = s.state.outstandingOperations - 1 ∧
      u.state.stopped = s.state.stopped ++ (if s.state.outstandingOperations = 1 then [ioc] else []) ∧
      ∀ i, landed u.state i = landed s.state i + [ioc].count i := by
  have eq := decrement_eq op ioc (hs.busy at_op flying)
  have undecremented : o.decrements = 0 := by simpa [Op.inFlight] using flying
  have counted (f : Op → Op) (once : (f o).inFlight = false) (same : (f o).ioc = ioc) (i : Nat) :
      (s.state.ops.modify op f).countP (fun o => !o.inFlight && o.ioc = i) = landed s.state i + [ioc].count i := by
    have count := countP_modify at_op f fun o => !o.inFlight && o.ioc = i
    simp only [flying, once, same, Bool.not_true, Bool.not_false, Bool.false_and, Bool.true_and,
      Bool.false_eq_true, if_false, Nat.add_zero] at count
    rw [count, landed, List.count_singleton]
    by_cases here : ioc = i <;> simp [here]
  cases finalcall with
  | false =>
    simp only [invokeFinalcall, Bool.false_eq_true, if_false, Loop.modify_state, eq]
    exact ⟨trivial, trivial, trivial, trivial, counted Op.decrement (by simp [Op.inFlight, Op.decrement]) own⟩
  | true =>
    simp only [invokeFinalcall, if_true, performAll, List.foldl_nil, Loop.modify_state, eq, Manager.note, landed,
      List.modify_modify_eq]
    refine ⟨trivial, trivial, trivial, trivial, counted (Op.tell buffers ∘ Op.decrement) ?_ own⟩
    simp [Op.inFlight, Op.decrement, Op.tell]

/-- An operation is still accounted for when its decrement has run and its caller has been told. -/
theorem Accounted.completed {s : Session} (hs : Accounted s) {x : Handler} {o : Op} {settles : Bool}
    (at_op : s.state.ops[x.op]? = some o) (none : callbacks x.op s = [])
    (known : o.blank ∧ settles = o.finalcall ∨ settles = false ∧ o.decrements = 0 ∧ o.threw = false ∧
      o.finalcalls.length = o.finalcall.toNat) (buffers : ResultType) :
    Accounted (FileManager.invokeFinalcall x.op settles buffers {}
      (s.modify (decrementOutstandingOperations x.op x.ioc))) := by
  rcases known with ⟨blank, rfl⟩ | ⟨rfl, undecremented, kept, told⟩
  · exact hs.settle x.ioc at_op blank none buffers {}
  · exact hs.decremented x.ioc at_op undecremented kept none told

/-- The calls that the `finalcall` of a callback makes. -/
def Handler.calls (x : Handler) (e : Outcome) (env : Env) : List Call :=
  if x.settles e then env.calls else []

/-- What a callback that completes its operation leaves in flight, and which contexts it stops
when nothing is left. -/
theorem run_completed {s t : Session} {x : Handler} {o : Op} (hs : Accounted s)
    (at_op : s.state.ops[x.op]? = some o) (stage : Stage [x] o) (none : callbacks x.op s = [])
    (own : o.ioc = x.ioc) {e : Outcome} {env : Env} (hr : x.run e env s = some t)
    (lands : x.lands e = true) :
    s.state.stopped <+: t.state.stopped ∧ 0 < s.state.outstandingOperations ∧
      t.state.outstandingOperations =
        s.state.outstandingOperations - 1 + ((x.calls e env).filterMap (Call.leaves s.state)).length ∧
      (t.state.outstandingOperations = 0 →
        t.state.stopped = s.state.stopped ++ x.ioc :: stops s.state (x.calls e env) ∧
        ∀ i, landed t.state i = landed s.state i + (x.ioc :: stops s.state (x.calls e env)).count i) := by
  obtain ⟨p, v, readied, ⟨no, _⟩ | ⟨_, known, buffers, rfl⟩⟩ := run_landed hs at_op stage none hr
  · rw [lands] at no
    cases no
  have hu := readied.accounted.completed readied.at_op readied.none known buffers
  have busy := readied.accounted.busy readied.at_op readied.flying
  have told := decrement_told readied.accounted readied.at_op readied.flying (readied.ioc.trans own) (x.settles e) buffers
  rw [invokeFinalcall_performAll, ← Handler.calls]
  generalize invokeFinalcall x.op (x.settles e) buffers {}
    (v.modify (decrementOutstandingOperations x.op x.ioc)) = u at told hu ⊢
  simp only [readied.loaders, readied.savers, readied.counter, readied.stopped, readied.landed] at told busy
  generalize x.calls e env = calls
  obtain ⟨loaders, savers, counter, stopped, completed⟩ := told
  obtain ⟨leaves, fails⟩ := leaves_congr loaders savers
  obtain ⟨left, halted⟩ := performAll_effect hu calls
  have before := hu.contexts
  have after := (hu.performAll calls).contexts
  rw [left, leaves, List.length_append] at after
  refine ⟨⟨_, by rw [halted, stopped, List.append_assoc]⟩, busy, by omega, fun idle => ?_⟩
  have empty : calls.filterMap (Call.leaves s.state) = [] := List.length_eq_zero_iff.mp (by omega)
  have last : s.state.outstandingOperations = 1 := by omega
  rw [if_pos (by omega), stopped, if_pos last, stops_congr loaders savers, List.append_assoc] at halted
  refine ⟨halted, fun i => ?_⟩
  have total := landed_performAll hu calls i
  rw [completed, fails, ← stops_all empty] at total
  refine total.trans ?_
  change _ = landed s.state i + ([x.ioc] ++ stops s.state calls).count i
  rw [List.count_append]
  omega

/-- Calls complete none of the operations that are in flight. -/
theorem performAll_busy {s : Session} (hs : Accounted s) (busy : 0 < s.state.outstandingOperations)
    (calls : List Call) : 0 < (performAll calls s).state.outstandingOperations := by
  have left := congrArg List.length (performAll_effect hs calls).1
  rw [List.length_append] at left
  have before := hs.contexts
  have after := (hs.performAll calls).contexts
  omega

/-- A callback that does not complete its operation leaves that in flight. -/
theorem run_unlanded {s t : Session} {x : Handler} {o : Op} (hs : Accounted s)
    (at_op : s.state.ops[x.op]? = some o) (stage : Stage [x] o) (none : callbacks x.op s = [])
    {e : Outcome} {env : Env} (hr : x.run e env s = some t) (lands : x.lands e = false) :
    s.state.stopped <+: t.state.stopped ∧ 0 < t.state.outstandingOperations := by
  obtain ⟨p, u, readied, ⟨_, blank, same⟩ | ⟨yes, _⟩⟩ := run_landed hs at_op stage none hr
  · have busy := readied.accounted.busy readied.at_op readied.flying
    rw [← readied.stopped]
    rcases same with ⟨f, _, rfl⟩ | ⟨savetype, suffix, buffers, rfl⟩
    · exact ⟨List.prefix_rfl, busy⟩
    · have hu := readied.accounted.nest x.ioc readied.at_op blank readied.none savetype suffix buffers
      cases set : p.finalcall with
      | true =>
        rw [set, if_pos rfl] at hu
        exact ⟨⟨_, (performAll_effect hu env.calls).2.symm⟩, performAll_busy hu busy env.calls⟩
      | false => exact ⟨List.prefix_rfl, busy⟩
  · rw [lands] at yes
    cases yes

theorem Owned.same {s t : Session} (owned : Owned s) (pool : ∀ x ∈ t.pool, x ∈ s.pool)
    (ops : t.state.ops.map Op.ioc = s.state.ops.map Op.ioc) : Owned t := by
  intro x hx o ho
  have here : (s.state.ops.map Op.ioc)[x.handler.op]? = some o.ioc := by
    rw [← ops, List.getElem?_map, ho]
    rfl
  obtain ⟨p, hp, same⟩ := Option.map_eq_some_iff.mp (List.getElem?_map.symm.trans here)
  exact same ▸ owned x (pool x hx) p hp

/-- A callback is held for an operation that has been accepted. -/
theorem Accounted.known {s : Session} (hs : Accounted s) {x : Entry Handler Outcome} (hx : x ∈ s.pool) :
    x.handler.op < s.state.ops.length := by
  by_contra unknown
  have none := List.map_eq_nil_iff.mp (hs.unknown _ (Nat.le_of_not_lt unknown))
  have mem : x ∈ s.held fun h => h.op = x.handler.op := List.mem_filter.mpr ⟨hx, decide_eq_true rfl⟩
  rw [none] at mem
  cases mem

theorem Owned.append {s t : Session} (hs : Accounted s) (owned : Owned s) {o : Op}
    (ops : t.state.ops = s.state.ops ++ [o])
    (pool : ∀ x ∈ t.pool, x ∈ s.pool ∨ (x.handler.op = s.state.ops.length ∧ o.ioc = x.handler.ioc)) : Owned t := by
  intro x hx p hp
  rw [ops] at hp
  rcases pool x hx with old | ⟨new, own⟩
  · rw [List.getElem?_append_left (hs.known old)] at hp
    exact owned x old p hp
  · rw [new, List.getElem?_concat_length] at hp
    exact Option.some.inj hp ▸ own

theorem Owned.perform {s : Session} (hs : Accounted s) (owned : Owned s) (c : Call) : Owned (c.perform s).1 := by
  rcases perform_cases c hs.counted with ⟨_, eq⟩ | ⟨_, _, eq⟩ | ⟨_, _, eq⟩ | ⟨_, _, h, own, first, eq⟩
  · rw [eq]
    exact owned
  · rw [eq]
    exact owned.append hs rfl fun x hx => .inl hx
  · rw [eq]
    exact owned.append hs rfl fun x hx => .inl hx
  · rw [eq]
    refine owned.append hs (o := c.op) rfl fun x hx => ?_
    rcases List.mem_append.mp hx with old | new
    · exact .inl old
    · rw [List.mem_singleton.mp new]
      exact .inr ⟨own, Handler.first_ioc first⟩

theorem Owned.performAll {s : Session} (hs : Accounted s) (owned : Owned s) (calls : List Call) :
    Owned (performAll calls s) := by
  induction calls generalizing s with
  | nil => exact owned
  | cons c calls ih => exact ih (hs.perform c) (owned.perform hs c)

theorem Owned.run {s t : Session} {x : Handler} {o : Op} (hs : Accounted s) (owned : Owned s)
    (at_op : s.state.ops[x.op]? = some o) (stage : Stage [x] o) (none : callbacks x.op s = [])
    (own : o.ioc = x.ioc) {e : Outcome} {env : Env} (hr : x.run e env s = some t) : Owned t := by
  obtain ⟨p, u, readied, case⟩ := run_landed hs at_op stage none hr
  have owned : Owned u := owned.same (fun y hy => readied.pool ▸ hy) readied.iocs
  rcases case with ⟨_, blank, ⟨f, aside, rfl⟩ | ⟨savetype, suffix, buffers, rfl⟩⟩ | ⟨_, known, buffers, rfl⟩
  · exact owned.same (fun y hy => hy) (map_ioc_modify _ _ aside.ioc)
  · have nested : Owned (u.start (.nestedWrite x.op x.ioc savetype suffix buffers)) := by
      intro y hy q hq
      rcases List.mem_append.mp hy with old | new
      · exact owned y old q hq
      · rw [List.mem_singleton.mp new] at hq ⊢
        obtain rfl := Option.some.inj (readied.at_op.symm.trans hq)
        exact readied.ioc.trans own
    have hu := readied.accounted.nest x.ioc readied.at_op blank readied.none savetype suffix buffers
    cases set : p.finalcall with
    | true =>
      rw [set, if_pos rfl] at hu
      have told := map_ioc_modify u.state.ops x.op (f := Op.tell buffers) fun o => rfl
      have owner : Owned ((u.start (.nestedWrite x.op x.ioc savetype suffix buffers)).modify (·.note x.op (Op.tell buffers))) :=
        nested.same (fun y hy => hy) told
      exact owner.performAll hu env.calls
    | false => exact nested
  · have hu := readied.accounted.completed readied.at_op readied.none known buffers
    rw [invokeFinalcall_performAll]
    refine Owned.performAll hu (owned.same ?_ ?_) _
    · cases x.settles e <;> exact fun y hy => hy
    · have decremented := map_ioc_modify u.state.ops x.op (f := Op.decrement) fun o => rfl
      cases x.settles e with
      | false => simpa [invokeFinalcall] using decremented
      | true =>
        have told := map_ioc_modify (u.state.ops.modify x.op Op.decrement) x.op (f := Op.tell buffers) fun o => rfl
        simpa [invokeFinalcall, FileManager.performAll, Manager.note] using told.trans decremented

theorem Owned.step {s t : Session} {l : Label Outcome Env Call} (hs : Accounted s) (owned : Owned s)
    (h : machine.step s l = some t) : Owned t := by
  rcases Machine.step_cases h with ⟨k, e, x, _, hk, _, rfl⟩ | ⟨k, env, x, e, rest, _, hk, hr⟩ | ⟨c, _, hr⟩
  · intro y hy o ho
    rcases List.mem_or_eq_of_mem_set hy with old | rfl
    · exact owned y old o ho
    · exact owned _ (List.mem_of_getElem? hk) o ho
  · obtain ⟨o, at_op, stage, none, left⟩ := hs.take hk
    have rested : Owned { s with pool := rest } := owned.same (fun y hy => takeAt_rest_mem hk hy) rfl
    exact rested.run left at_op stage none (owned _ (takeAt_mem hk) o at_op) hr
  · cases Option.some.inj hr
    exact owned.perform hs c

/-- The manager with what had happened on each context when it was last started or restarted. -/
structure Process where
  session : Session
  landedBefore : Nat → Nat
  stoppedBefore : Nat → Nat

namespace Process

/-- Contexts that have not been used yet. -/
def begin (loaders parsers savers : List Str) : Process := ⟨started loaders parsers savers, fun _ => 0, fun _ => 0⟩

inductive Move
  | step (l : Label Outcome Env Call)
  | restart (ioc : Nat)
deriving DecidableEq, Repr

def move (p : Process) : Move → Option Process
  | .step l => (machine.step p.session l).map fun session => { p with session }
  | .restart ioc => some { p with
      landedBefore := Function.update p.landedBefore ioc (landed p.session.state ioc)
      stoppedBefore := Function.update p.stoppedBefore ioc (p.session.state.stopped.count ioc) }

/-- An operation has been completed on the context since it was last started, and the context
has not been stopped since. -/
def Due (p : Process) (ioc : Nat) : Prop :=
  p.landedBefore ioc < landed p.session.state ioc ∧ p.session.state.stopped.count ioc ≤ p.stoppedBefore ioc

instance (p : Process) (ioc : Nat) : Decidable (p.Due ioc) := inferInstanceAs (Decidable (_ ∧ _))

/-- When the last outstanding operation is completed and its `finalcall` leaves none, the only
contexts that are due are those that are stopped then: its own, and those of saves that
throw in the `finalcall`. -/
def Alone (p : Process) (m : Move) : Prop :=
  ∀ k env x e rest, m = .step (.run k env) → takeAt p.session.pool k = some (⟨x, some e⟩, rest) →
    x.lands e = true → p.session.state.outstandingOperations = 1 →
    (x.calls e env).filterMap (Call.leaves p.session.state) = [] →
    ∀ i, p.Due i → i = x.ioc ∨ i ∈ stops p.session.state (x.calls e env)

/-- Whenever no operation is outstanding, no context is due. -/
def ShutDown (p : Process) : Prop := p.session.state.outstandingOperations = 0 → ∀ i, ¬ p.Due i

structure Known (p : Process) : Prop where
  accounted : Accounted p.session
  owned : Owned p.session
  marks : ∀ i, p.stoppedBefore i ≤ p.session.state.stopped.count i

/-- Contexts that are stopped in a step are not due after it, the other ones as they were. -/
theorem due_after {p : Process} (known : p.Known) {t : Session} {halted : List Nat}
    (stopped : t.state.stopped = p.session.state.stopped ++ halted)
    (completed : ∀ i, landed t.state i = landed p.session.state i + halted.count i) (i : Nat) :
    ({ p with session := t } : Process).Due i ↔ p.Due i ∧ i ∉ halted := by
  have marks := known.marks i
  have now := completed i
  unfold Due
  simp only [stopped, List.count_append]
  by_cases mem : i ∈ halted
  · have some := List.count_pos_iff.mpr mem
    exact iff_of_false (fun due => by omega) (fun due => due.2 mem)
  · have none := List.count_eq_zero.mpr mem
    simp only [mem, not_false_eq_true, and_true]
    omega

/-- A run of a callback keeps all contexts shut down if and only if the last operation is alone. -/
theorem run_shutDown_iff {p : Process} (known : p.Known) {k : Nat} {env : Env} {t : Session}
    (h : machine.step p.session (.run k env) = some t) :
    ShutDown { p with session := t } ↔ p.Alone (.step (.run k env)) := by
  rcases Machine.step_cases h with ⟨_, _, _, same, _⟩ | ⟨j, env', x, e, rest, same, hk, hr⟩ | ⟨_, same, _⟩
  · cases same
  · cases same
    obtain ⟨o, at_op, stage, none, left⟩ := known.accounted.take hk
    have own := known.owned _ (takeAt_mem hk) o at_op
    cases lands : x.lands e with
    | false =>
      have busy := (run_unlanded left at_op stage none hr lands).2
      refine iff_of_true (fun idle => ?_) ?_
      · change t.state.outstandingOperations = 0 at idle
        omega
      · rintro _ _ y d rest' ⟨rfl, rfl⟩ hk' lands'
        cases hk.symm.trans hk'
        rw [lands] at lands'
        cases lands'
    | true =>
      obtain ⟨_, busy, counter, ends⟩ := run_completed left at_op stage none own hr lands
      change t.state.outstandingOperations = p.session.state.outstandingOperations - 1 +
        ((x.calls e env).filterMap (Call.leaves p.session.state)).length at counter
      change 0 < p.session.state.outstandingOperations at busy
      constructor
      · rintro shut _ _ y d rest' ⟨rfl, rfl⟩ hk' _ last empty i due
        cases hk.symm.trans hk'
        have idle : t.state.outstandingOperations = 0 := by
          rw [counter, last, empty]
          rfl
        obtain ⟨stopped, completed⟩ := ends idle
        by_contra other
        exact shut idle i ((due_after known stopped completed i).mpr ⟨due, by simpa using other⟩)
      · intro alone idle i due
        change t.state.outstandingOperations = 0 at idle
        have empty : (x.calls e env).filterMap (Call.leaves p.session.state) = [] :=
          List.length_eq_zero_iff.mp (by omega)
        obtain ⟨stopped, completed⟩ := ends idle
        obtain ⟨before, outside⟩ := (due_after known stopped completed i).mp due
        exact outside (by simpa using alone k env x e rest rfl hk lands (by omega) empty i before)
  · cases same

/-- A call starts nothing that is due when nothing else is outstanding. -/
theorem call_shutDown {p : Process} (known : p.Known) (shut : p.ShutDown) {c : Call} {t : Session}
    (h : machine.step p.session (.call c) = some t) : ShutDown { p with session := t } := by
  obtain rfl := Option.some.inj h
  intro idle i due
  have effect := perform_effect known.accounted c
  have counted := known.accounted.counted
  have counter := effect.counter
  change (c.perform p.session).1.state.outstandingOperations = 0 at idle
  have before : p.session.state.outstandingOperations = 0 := by omega
  have stopped := effect.stopped
  rw [if_pos before] at stopped
  exact shut before i ((due_after known stopped (landed_perform known.accounted c) i).mp due).1

theorem Known.move {p q : Process} {m : Move} (known : p.Known) (h : p.move m = some q) : q.Known := by
  cases m with
  | restart ioc =>
    obtain rfl := Option.some.inj h
    refine ⟨known.accounted, known.owned, fun i => ?_⟩
    by_cases here : i = ioc
    · subst here
      simp
    · simpa [here] using known.marks i
  | step l =>
    obtain ⟨t, ht, rfl⟩ := Option.map_eq_some_iff.mp h
    refine ⟨known.accounted.step ht, known.owned.step known.accounted ht, fun i => ?_⟩
    have grows : p.session.state.stopped <+: t.state.stopped := by
      rcases Machine.step_cases ht with ⟨k, e, x, _, _, _, rfl⟩ | ⟨k, env, x, e, rest, _, hk, hr⟩ | ⟨c, _, hr⟩
      · exact List.prefix_rfl
      · obtain ⟨o, at_op, stage, none, left⟩ := known.accounted.take hk
        have own := known.owned _ (takeAt_mem hk) o at_op
        cases lands : x.lands e with
        | false => exact (run_unlanded left at_op stage none hr lands).1
        | true => exact (run_completed left at_op stage none own hr lands).1
      · cases Option.some.inj hr
        exact ⟨_, (perform_effect known.accounted c).stopped.symm⟩
    exact Nat.le_trans (known.marks i) (grows.sublist.count_le i)

theorem ShutDown.move {p q : Process} {m : Move} (known : p.Known) (shut : p.ShutDown) (alone : p.Alone m)
    (h : p.move m = some q) : q.ShutDown := by
  cases m with
  | restart ioc =>
    obtain rfl := Option.some.inj h
    intro idle i due
    by_cases here : i = ioc
    · subst here
      simp [Due] at due
    · exact shut idle i (by simpa [Due, here] using due)
  | step l =>
    obtain ⟨t, ht, rfl⟩ := Option.map_eq_some_iff.mp h
    cases l with
    | finish k e =>
      rcases Machine.step_cases ht with ⟨_, _, x, _, _, _, rfl⟩ | ⟨_, _, _, _, _, same, _⟩ | ⟨_, same, _⟩
      · exact shut
      · cases same
      · cases same
    | run k env => exact (run_shutDown_iff known ht).mpr alone
    | call c => exact call_shutDown known shut ht

/-- In a run in which the last outstanding operation is always alone, every context on which an
operation has been completed since it was last started has been stopped when none is outstanding. -/
theorem contexts_shut_down {loaders parsers savers : List Str} {p : Process}
    (reach : Reaches move Alone (begin loaders parsers savers) p) :
    p.session.state.outstandingOperations = 0 → ∀ ioc,
      p.landedBefore ioc < landed p.session.state ioc → p.stoppedBefore ioc < p.session.state.stopped.count ioc := by
  have start : (begin loaders parsers savers).Known ∧ (begin loaders parsers savers).ShutDown := by
    refine ⟨⟨accounted_started loaders parsers savers, fun x hx => ?_, fun i => Nat.zero_le _⟩, fun _ i due => ?_⟩
    · cases hx
    · exact Nat.not_lt_zero _ due.1
  have both : p.Known ∧ p.ShutDown :=
    reach.invariant (P := fun p => p.Known ∧ p.ShutDown)
      (fun _ _ _ ⟨known, shut⟩ alone h => ⟨known.move h, shut.move known alone h⟩) start
  intro idle ioc completed
  by_contra unstopped
  exact both.2 idle ioc ⟨completed, Nat.le_of_not_lt unstopped⟩

/-- The only load has been completed on the context 0, and the context stopped. -/
theorem contexts_shut_down_fetched :
    ∃ p : Process, p.session.state.outstandingOperations = 0 ∧ p.landedBefore 0 < landed p.session.state 0 ∧
      p.stoppedBefore 0 < p.session.state.stopped.count 0 := by
  have reach : Reaches move Alone (begin ["https".toList] [] []) ⟨fetched, fun _ => 0, fun _ => 0⟩ := by
    have called : move (begin ["https".toList] [] []) (.step (.call (.load fetch false))) =
        some ⟨⟨fetched.state, [⟨.handleRead 0 fetch "h/p".toList [], none⟩]⟩, fun _ => 0, fun _ => 0⟩ := rfl
    have read : move ⟨⟨fetched.state, [⟨.handleRead 0 fetch "h/p".toList [], none⟩]⟩, fun _ => 0, fun _ => 0⟩
        (.step (.finish 0 (.read ⟨.success none, false, false⟩))) = some ⟨fetched, fun _ => 0, fun _ => 0⟩ := rfl
    refine (Reaches.one ?_ called).next ?_ read
    · rintro k env x e rest ⟨⟩
    · rintro k env x e rest ⟨⟩
  have alone : Alone ⟨fetched, fun _ => 0, fun _ => 0⟩ (.step (.run 0 {})) := by
    rintro _ _ _ _ _ _ _ _ _ _ i due
    exact absurd due.1 (by simp [landed, fetched, Op.inFlight])
  have last := reach.next alone (show move ⟨fetched, fun _ => 0, fun _ => 0⟩ (.step (.run 0 {})) = some _ from rfl)
  exact ⟨_, by decide, by decide, contexts_shut_down last (by decide) 0 (by decide)⟩

/-- A context on which an operation is completed before the last one is not stopped. -/
theorem earlier_context_runs_on :
    ∃ p, Reaches move Free (begin ["https".toList] [] []) p ∧ p.session.state.outstandingOperations = 0 ∧
      p.landedBefore 0 < landed p.session.state 0 ∧ ¬ p.stoppedBefore 0 < p.session.state.stopped.count 0 := by
  obtain ⟨p, reach, left⟩ := reaches_of_any move (begin ["https".toList] [] [])
    [.step (.call (.load fetch false)), .step (.call (.load { fetch with ioc := 1 } false)),
      .step (.finish 0 (.read ⟨.success none, false, false⟩)), .step (.run 0 {}),
      .step (.finish 0 (.read ⟨.success none, false, false⟩)), .step (.run 0 {})]
    (fun p => p.session.state.outstandingOperations = 0 ∧ p.landedBefore 0 < landed p.session.state 0 ∧
      ¬ p.stoppedBefore 0 < p.session.state.stopped.count 0) (by decide)
  exact ⟨p, reach, of_decide_eq_true left⟩

end Process

end FileManager

end AsyncIOManager
