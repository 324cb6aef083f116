import AsyncIOManager.OutstandingOperations

namespace AsyncIOManager

open Reactor

namespace FileManager

/-- The `io_context` on which the call leaves an operation in flight. -/
def Call.leaves (m : Manager) (c : Call) : Option Nat :=
  match c with
  | load l _ => if c.accepted m then some l.ioc else none
  | save v saverThrows => if c.accepted m ∧ saverThrows = false then some v.ioc else none

/-- The `io_context` of an accepted save that throws. -/
def Call.fails (m : Manager) (c : Call) : Option Nat :=
  match c with
  | load _ _ => none
  | save v saverThrows => if c.accepted m ∧ saverThrows = true then some v.ioc else none

/-- The contexts that saves stop while nothing is in flight. -/
def stops (m : Manager) (calls : List Call) : List Nat :=
  (calls.takeWhile fun c => (c.leaves m).isNone).filterMap (Call.fails m)

/-- The contexts of the operations in flight. -/
def contexts (m : Manager) : List Nat := (m.ops.filter Op.inFlight).map Op.ioc

/-- When a handler has decremented the last operation, its `finalcall` leaves no
operation in flight on a context that has been stopped by then: neither on the
handler's own, nor on that of a save that threw while nothing was in flight. -/
def Quiet (s : Session) (l : Label Outcome Env Call) : Prop :=
  ∀ k env x e rest, l = .run k env → takeAt s.pool k = some (⟨x, some e⟩, rest) →
    x.settles e = true → s.state.outstandingOperations = 1 →
    ∀ i ∈ env.calls.filterMap (Call.leaves s.state), i ≠ x.ioc ∧ i ∉ stops s.state env.calls

/-- No context that was stopped between `s` and `t` has an unfinished operation. -/
def StoppedIdle (s t : Session) : Prop :=
  ∀ i ∈ t.state.stopped.drop s.state.stopped.length, ∀ o ∈ t.state.ops, o.ioc = i → o.decrements ≠ 0

theorem leaves_congr {m n : Manager} (loaders : m.loaders = n.loaders) (savers : m.savers = n.savers) :
    Call.leaves m = Call.leaves n ∧ Call.fails m = Call.fails n := by
  constructor <;>
  · funext c
    cases c <;> simp [Call.leaves, Call.fails, Call.accepted, loaders, savers]

theorem Call.rejected {m : Manager} {c : Call} (h : c.accepted m = false) :
    c.leaves m = none ∧ c.fails m = none := by
  cases c <;> simp [leaves, fails, h]

theorem Call.left {m : Manager} {c : Call} (h : c.accepted m = true) (h' : c.throws = false) :
    c.leaves m = some c.op.ioc := by
  cases c with
  | load l throws => simp [leaves, h, op]
  | save v throws =>
    obtain rfl : throws = false := h'
    simp [leaves, h, op]

/-- Only a call that leaves nothing in flight stops a context. -/
theorem Call.unfailed {m : Manager} {c : Call} {i : Nat} (h : c.leaves m = some i) : c.fails m = none := by
  cases c with
  | load l throws => rfl
  | save v throws =>
    cases throws with
    | true => simp [leaves] at h
    | false => simp [fails]

theorem contexts_append {m n : Manager} {o : Op} (ops : n.ops = m.ops ++ [o]) :
    contexts n = contexts m ++ if o.inFlight then [o.ioc] else [] := by
  by_cases flying : o.inFlight = true <;> simp [contexts, ops, flying]

theorem stops_congr {m n : Manager} (loaders : m.loaders = n.loaders) (savers : m.savers = n.savers)
    (calls : List Call) : stops m calls = stops n calls := by
  obtain ⟨left, failed⟩ := leaves_congr loaders savers
  simp only [stops, left, failed]

theorem stops_cons_some {m : Manager} {c : Call} {i : Nat} (h : c.leaves m = some i)
    (calls : List Call) : stops m (c :: calls) = [] := by
  simp [stops, h]

theorem stops_cons_none {m : Manager} {c : Call} (h : c.leaves m = none) (calls : List Call) :
    stops m (c :: calls) = (c.fails m).toList ++ stops m calls := by
  cases failed : c.fails m <;> simp [stops, h, failed]

/-- What one call does to the contexts in flight and to those stopped. -/
structure Effect (c : Call) (m n : Manager) : Prop where
  loaders : n.loaders = m.loaders
  savers : n.savers = m.savers
  left : contexts n = contexts m ++ (c.leaves m).toList
  counter : n.outstandingOperations = m.outstandingOperations + (c.leaves m).toList.length
  stopped : n.stopped = m.stopped ++ if m.outstandingOperations = 0 then (c.fails m).toList else []

theorem perform_effect {s : Session} (hs : Accounted s) (c : Call) :
    Effect c s.state (c.perform s).1.state := by
  rcases perform_cases c hs.counted with
    ⟨no, eq⟩ | ⟨yes, ⟨l, rfl⟩, eq⟩ | ⟨yes, ⟨v, rfl⟩, eq⟩ | ⟨yes, kept, h, _, _, eq⟩
  · obtain ⟨left, failed⟩ := Call.rejected no
    rw [eq]
    exact ⟨rfl, rfl, by simp [left], by simp [left], by simp [failed]⟩
  · have left : (Call.load l true).leaves s.state = some l.ioc := by simp [Call.leaves, yes]
    rw [eq]
    refine ⟨rfl, rfl, ?_, ?_, ?_⟩
    · rw [left]
      exact contexts_append (o := (Call.load l true).op.throw) rfl
    · simp [left, incrementOutstandingOperations]
    · simp [Call.fails, incrementOutstandingOperations]
  · have left : (Call.save v true).leaves s.state = none := by simp [Call.leaves]
    have failed : (Call.save v true).fails s.state = some v.ioc := by simp [Call.fails, yes]
    rw [eq]
    refine ⟨rfl, rfl, ?_, ?_, ?_⟩
    · rw [left]
      exact contexts_append (o := (Call.save v true).op.decrement.throw) rfl
    · simp [left]
    · simp [failed, Call.op]
  · have left := Call.left yes kept
    have failed := Call.unfailed left
    have flying : c.op.inFlight = true := by cases c <;> rfl
    rw [eq]
    refine ⟨rfl, rfl, ?_, ?_, ?_⟩
    · have here := contexts_append (m := s.state) (n := incrementOutstandingOperations c.op s.state) rfl
      rw [if_pos flying] at here
      rw [left]
      exact here
    · simp [left, incrementOutstandingOperations]
    · simp [failed, incrementOutstandingOperations]

/-- What a list of calls leaves in flight and which contexts it stops. -/
theorem performAll_effect {s : Session} (hs : Accounted s) (calls : List Call) :
    contexts (performAll calls s).state = contexts s.state ++ calls.filterMap (Call.leaves s.state) ∧
    (performAll calls s).state.stopped = s.state.stopped ++
      if s.state.outstandingOperations = 0 then stops s.state calls else [] := by
  induction calls generalizing s with
  | nil => simp [performAll, stops]
  | cons c calls ih =>
    have effect := perform_effect hs c
    obtain ⟨left, stopped⟩ := ih (hs.perform c)
    have same := leaves_congr effect.loaders effect.savers
    have counted := hs.counted
    change contexts (performAll calls (c.perform s).1).state = _ ∧
      (performAll calls (c.perform s).1).state.stopped = _
    rw [left, stopped, effect.left, effect.stopped, effect.counter, same.1,
      stops_congr effect.loaders effect.savers]
    cases leaves : c.leaves s.state with
    | none =>
      refine ⟨by simp [leaves], ?_⟩
      rw [stops_cons_none leaves]
      by_cases idle : s.state.outstandingOperations = 0
      · simp [idle]
      · simp [idle]
    | some i =>
      have more : s.state.outstandingOperations + 1 ≠ 0 := by omega
      refine ⟨by simp [leaves], ?_⟩
      rw [stops_cons_some leaves, Call.unfailed leaves]
      simp [more]

theorem stoppedIdle_iff {s t : Session} {n : List Nat} (stopped : t.state.stopped = s.state.stopped ++ n) :
    StoppedIdle s t ↔ ∀ i ∈ n, i ∉ contexts t.state := by
  unfold StoppedIdle contexts
  rw [stopped, List.drop_left]
  constructor
  · intro idle i hi mem
    obtain ⟨o, ho, own⟩ := List.mem_map.mp mem
    have flying := List.mem_filter.mp ho
    exact idle i hi o flying.1 own (by simpa [Op.inFlight] using flying.2)
  · intro none i hi o ho own landed
    apply none i hi
    refine List.mem_map.mpr ⟨o, List.mem_filter.mpr ⟨ho, ?_⟩, own⟩
    simp [Op.inFlight, landed]

theorem stoppedIdle_of_same {s t : Session} (same : t.state.stopped = s.state.stopped) : StoppedIdle s t := by
  rw [stoppedIdle_iff (n := []) (by simpa using same)]
  simp

theorem stoppedIdle_congr {s u t : Session} (same : u.state.stopped = s.state.stopped) :
    StoppedIdle u t ↔ StoppedIdle s t := by
  unfold StoppedIdle
  rw [same]

theorem contexts_of_idle {s : Session} (hs : Accounted s) (idle : s.state.outstandingOperations = 0) :
    contexts s.state = [] := by
  have counter := hs.counter
  have none : s.state.ops.countP Op.inFlight = 0 := by omega
  rw [contexts, List.map_eq_nil_iff, List.filter_eq_nil_iff]
  exact List.countP_eq_zero.mp none

/-- The `finalcall` of an operation whose decrement has just run. -/
theorem settled_stoppedIdle_iff {s : Session} (hs : Accounted s) {op ioc : Nat} {o : Op}
    (at_op : s.state.ops[op]? = some o) (blank : o.blank) (none : callbacks op s = [])
    (set : o.finalcall = true) (buffers : ResultType) (env : Env) :
    StoppedIdle s (invokeFinalcall op true buffers env (s.modify (decrementOutstandingOperations op ioc))) ↔
      (s.state.outstandingOperations = 1 → ∀ i ∈ env.calls.filterMap (Call.leaves s.state),
        i ≠ ioc ∧ i ∉ stops s.state env.calls) := by
  have eq := decrement_eq op ioc (hs.busy at_op (by simp [Op.inFlight, blank.1]))
  have hu := hs.told ioc at_op blank none set buffers
  obtain ⟨u, hu'⟩ : ∃ u, u = (s.modify (decrementOutstandingOperations op ioc)).modify
    (·.note op (Op.tell buffers)) := ⟨_, rfl⟩
  have loaders : u.state.loaders = s.state.loaders := by simp [hu', eq, Manager.note]
  have savers : u.state.savers = s.state.savers := by simp [hu', eq, Manager.note]
  have counter : u.state.outstandingOperations = s.state.outstandingOperations - 1 := by
    simp [hu', eq, Manager.note]
  have first : u.state.stopped = s.state.stopped ++
      if s.state.outstandingOperations = 1 then [ioc] else [] := by simp [hu', eq, Manager.note]
  rw [← hu'] at hu
  obtain ⟨left, stopped⟩ := performAll_effect hu env.calls
  rw [(leaves_congr loaders savers).1] at left
  rw [first, counter, stops_congr loaders savers] at stopped
  change StoppedIdle s (performAll env.calls ((s.modify (decrementOutstandingOperations op ioc)).modify
    (·.note op (Op.tell buffers)))) ↔ _
  rw [← hu']
  by_cases last : s.state.outstandingOperations = 1
  · rw [contexts_of_idle hu (by omega), List.nil_append] at left
    rw [if_pos last, if_pos (by omega), List.append_assoc] at stopped
    rw [stoppedIdle_iff stopped, left]
    constructor
    · intro idle _ i hi
      refine ⟨fun own => idle i (by simp [own]) hi, fun mem => idle i (by simp [mem]) hi⟩
    · intro quiet i hi mem
      obtain ⟨other, unstopped⟩ := quiet last i mem
      rcases List.mem_cons.mp hi with own | mem
      · exact other own
      · exact unstopped mem
  · rw [if_neg last, if_neg (by omega), List.append_nil, List.append_nil] at stopped
    exact ⟨fun _ only => absurd only last, fun _ => stoppedIdle_of_same stopped⟩

/-- Operations that are still in flight keep every context from being stopped. -/
theorem performAll_stoppedIdle {s u : Session} (hu : Accounted u) (busy : 0 < u.state.outstandingOperations)
    (same : u.state.stopped = s.state.stopped) (calls : List Call) :
    StoppedIdle s (performAll calls u) := by
  have stopped := (performAll_effect hu calls).2
  rw [if_neg (by omega), List.append_nil, same] at stopped
  exact stoppedIdle_of_same stopped

theorem decremented_stoppedIdle {s : Session} (hs : Accounted s) {op : Nat} {o : Op} (ioc : Nat)
    (at_op : s.state.ops[op]? = some o) (undecremented : o.decrements = 0) (kept : o.threw = false)
    (none : callbacks op s = []) (told : o.finalcalls.length = o.finalcall.toNat) :
    StoppedIdle s (s.modify (decrementOutstandingOperations op ioc)) := by
  have eq := decrement_eq op ioc (hs.busy at_op (by simp [Op.inFlight, undecremented]))
  have hu := hs.decremented ioc at_op undecremented kept none told
  have stopped : (s.modify (decrementOutstandingOperations op ioc)).state.stopped = s.state.stopped ++
      if s.state.outstandingOperations = 1 then [ioc] else [] := by simp [eq]
  rw [stoppedIdle_iff stopped]
  by_cases last : s.state.outstandingOperations = 1
  · rw [contexts_of_idle hu (by simp [eq, last])]
    simp
  · rw [if_neg last]
    simp

/-- A callback leaves no context stopped under a live operation exactly when it is quiet. -/
theorem run_stoppedIdle_iff {s t : Session} {x : Handler} {o : Op} (hs : Accounted s)
    (at_op : s.state.ops[x.op]? = some o) (stage : Stage [x] o) (none : callbacks x.op s = [])
    {e : Outcome} {env : Env} (hr : x.run e env s = some t) :
    StoppedIdle s t ↔ (x.settles e = true → s.state.outstandingOperations = 1 →
      ∀ i ∈ env.calls.filterMap (Call.leaves s.state), i ≠ x.ioc ∧ i ∉ stops s.state env.calls) := by
  rcases run_cases stage hr with ⟨blank, p, u, looked, ran⟩ | ⟨undecremented, kept, told, _, unsettled, rfl⟩
  · obtain ⟨hu, at_u, none⟩ := looked.accounted hs at_op blank none
    obtain ⟨blank, _, set⟩ := looked.record blank
    obtain ⟨_, loaders, savers, counter, stopped⟩ := looked.same
    have busy := hu.busy at_u (by simp [Op.inFlight, blank.1])
    rw [← stoppedIdle_congr stopped, ← (leaves_congr loaders savers).1, ← stops_congr loaders savers, ← counter]
    rw [← set] at ran
    cases ran with
    | aside _ unsettled ran =>
      obtain ⟨f, _, rfl⟩ := ran
      have idle : StoppedIdle u (u.modify (·.note x.op f)) := stoppedIdle_of_same rfl
      simp [unsettled, idle]
    | nested _ unsettled ran =>
      obtain ⟨savetype, suffix, buffers, rfl⟩ := ran
      have nested := hu.nest x.ioc at_u blank none savetype suffix buffers
      have idle : StoppedIdle u (invokeFinalcall x.op p.finalcall buffers env
          (u.start (.nestedWrite x.op x.ioc savetype suffix buffers))) := by
        cases set : p.finalcall with
        | true =>
          rw [set, if_pos rfl] at nested
          exact performAll_stoppedIdle nested busy rfl env.calls
        | false => exact stoppedIdle_of_same rfl
      simp [unsettled, idle]
    | landed _ settles ran =>
      obtain ⟨buffers, rfl⟩ := ran
      rw [settles]
      cases set : p.finalcall with
      | true =>
        rw [settled_stoppedIdle_iff hu at_u blank none set]
        simp
      | false =>
        have told : p.finalcalls.length = p.finalcall.toNat := by simp [blank.2.2, set]
        have idle := decremented_stoppedIdle hu x.ioc at_u blank.1 blank.2.1 none told
        simpa [invokeFinalcall] using idle
  · have idle := decremented_stoppedIdle hs x.ioc at_op undecremented kept none told
    simp [unsettled, idle]

/-- The condition is exact: a handler returns with no context stopped under a
live operation if and only if it is quiet. -/
theorem handler_stoppedIdle_iff {s t : Session} (hs : Accounted s) {k : Nat} {env : Env}
    (h : machine.step s (.run k env) = some t) : StoppedIdle s t ↔ Quiet s (.run k env) := by
  rcases Machine.step_cases h with ⟨_, _, _, same, _⟩ | ⟨j, env', x, e, rest, same, hk, hr⟩ | ⟨_, same, _⟩
  · cases same
  · cases same
    obtain ⟨o, at_op, stage, none, left⟩ := hs.take hk
    have exact_ := run_stoppedIdle_iff left at_op stage none hr
    constructor
    · rintro idle _ _ y d rest' ⟨rfl, rfl⟩ hk'
      cases hk.symm.trans hk'
      exact exact_.mp idle
    · intro quiet
      exact exact_.mpr (quiet k env x e rest rfl hk)
  · cases same

/-- In a run whose steps are all quiet, a handler that returns has stopped no
context on which an accepted operation is unfinished. -/
theorem stopped_contexts_idle {loaders parsers savers : List Str} {s t : Session} {k : Nat} {env : Env}
    (reach : Reaches machine.step Quiet (started loaders parsers savers) s)
    (quiet : Quiet s (.run k env)) (h : machine.step s (.run k env) = some t) : StoppedIdle s t := by
  have hs := reaches_accounted (reach.mono fun _ _ _ => trivial)
  exact (handler_stoppedIdle_iff hs h).mpr quiet

theorem quiet_call (s : Session) (c : Call) : Quiet s (.call c) := by
  rintro k env x e rest ⟨⟩

theorem quiet_finish (s : Session) (k : Nat) (e : Outcome) : Quiet s (.finish k e) := by
  rintro j env x d rest ⟨⟩

def fetch : Load := ⟨"https://h/p".toList, false, false, 0, true, []⟩

/-- The only load has been read, and its callback is queued. -/
def fetched : Session where
  state := { loaders := ["https".toList], outstandingOperations := 1, ops := [{ ioc := 0, finalcall := true }] }
  pool := [⟨.handleRead 0 fetch "h/p".toList [], some (.read ⟨.success none, false, false⟩)⟩]

theorem reaches_fetched : Reaches machine.step Quiet (started ["https".toList] [] []) fetched := by
  have called : machine.step (started ["https".toList] [] []) (.call (.load fetch false)) =
      some ⟨fetched.state, [⟨.handleRead 0 fetch "h/p".toList [], none⟩]⟩ := by decide
  have read : machine.step ⟨fetched.state, [⟨.handleRead 0 fetch "h/p".toList [], none⟩]⟩
      (.finish 0 (.read ⟨.success none, false, false⟩)) = some fetched := by decide
  exact (Reaches.one (quiet_call _ _) called).next (quiet_finish _ _ _) read

theorem stopped_contexts_idle_fetched :
    ∃ t, machine.step fetched (.run 0 {}) = some t ∧ StoppedIdle fetched t := by
  have quiet : Quiet fetched (.run 0 {}) := by
    rintro k env x e rest ⟨rfl, rfl⟩ _ _ _ i hi
    cases hi
  exact ⟨_, rfl, stopped_contexts_idle reaches_fetched quiet rfl⟩

/-- After a `finalcall` that loads again on its own context. -/
def chained : Session where
  state := {
    loaders := ["https".toList]
    outstandingOperations := 1
    ops := [⟨0, true, 1, [.success none], false, false, false⟩, { ioc := 0, finalcall := true }]
    stopped := [0] }
  pool := [⟨.handleRead 1 fetch "h/p".toList [], none⟩]

theorem chained_load_stopped :
    Reaches machine.step Free (started ["https".toList] [] []) fetched ∧
    machine.step fetched (.run 0 { calls := [.load fetch false] }) = some chained ∧
    ¬ StoppedIdle fetched chained := by
  refine ⟨reaches_fetched.mono fun _ _ _ => trivial, by decide, fun idle => ?_⟩
  exact idle 0 (by decide) { ioc := 0, finalcall := true } (by decide) rfl rfl

end FileManager

end AsyncIOManager
