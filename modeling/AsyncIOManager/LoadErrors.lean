import AsyncIOManager.OutstandingOperations

namespace AsyncIOManager

open Reactor

namespace FileManager

/-- How the loader and the nested saver of a load turn out. -/
structure Outcomes where
  loaderThrows : Bool
  buffers : ResultType
  saverThrows : Bool
deriving DecidableEq, Repr

/-- The loader hands on `parse` and `save` with the data it has loaded. -/
def Outcomes.reads (o : Outcomes) (c : Load) (r : ReadCall) : Prop :=
  r.buffers = o.buffers ∧ ∀ data, o.buffers = .success data → r.parse = c.parse ∧ r.save = c.save

/-- The loader and the nested saver of the operation `i` turn out as `o` says. -/
def Follows (o : Outcomes) (i : Nat) (c : Load) (s : Session) (l : Label Outcome Env Call) : Prop :=
  (∀ k r x, l = .finish k (.read r) → s.pool[k]? = some ⟨x, none⟩ → x.op = i → o.reads c r) ∧
  ∀ k env x rest, l = .run k env → takeAt s.pool k = some (x, rest) → x.handler.op = i →
    env.saverThrows = o.saverThrows

/-- How often the caller has been told. -/
def Op.reports (p : Op) : Nat := p.finalcalls.length + p.threw.toNat

/-- A load is rejected and changes nothing, or its operation is decremented once
and reported once, and no end of a registry is dereferenced for it. -/
def LoadSettles (o : Outcomes) (c : Load) (s : Session) : Prop :=
  (loadASync c o.loaderThrows s).2 = .rangeError ∧ (loadASync c o.loaderThrows s).1 = s ∨
  ∀ t, Reaches machine.step (Follows o s.state.ops.length c) (loadASync c o.loaderThrows s).1 t →
    (∃ p, t.state.ops[s.state.ops.length]? = some p ∧ p.decrements ≤ 1 ∧ p.reports ≤ 1 ∧
      p.endDereferenced = false ∧
      (callbacks s.state.ops.length t = [] → p.decrements = 1 ∧ p.reports = 1)) ∧
    ∃ u, Reaches machine.step (Follows o s.state.ops.length c) t u ∧ callbacks s.state.ops.length u = []

def Load.fresh (c : Load) : Op := { ioc := c.ioc, finalcall := c.finalcall }

/-- The record of a load once `handle_read` has looked the parser up. -/
def Outcomes.looked (o : Outcomes) (m : Manager) (c : Load) : Op :=
  match o.buffers with
  | .success _ => if c.parse ∧ "mnn".toList ∉ m.parsers then c.fresh.dereferenceEnd else c.fresh
  | .failure _ => c.fresh

def Outcomes.told (o : Outcomes) (m : Manager) (c : Load) : Op :=
  if c.finalcall then (o.looked m c).tell o.buffers else o.looked m c

/-- The record of a load when nothing is left to be done for it. -/
def Outcomes.final (o : Outcomes) (m : Manager) (c : Load) : Op :=
  match o.buffers with
  | .success _ =>
    if c.save then
      if c.savetype ∉ m.savers then (o.looked m c).dereferenceEnd
      else if o.saverThrows then (o.looked m c).failSave
      else (o.told m c).decrement
    else (o.told m c).decrement
  | .failure _ => (o.told m c).decrement

/-- What a run leaves alone of the operation `i`. -/
structure Frame (i : Nat) (s t : Session) : Prop where
  op : t.state.ops[i]? = s.state.ops[i]?
  held : t.held (fun h => h.op = i) = s.held fun h => h.op = i
  parsers : t.state.parsers = s.state.parsers
  savers : t.state.savers = s.state.savers

theorem Frame.trans {i : Nat} {s t u : Session} (first : Frame i s t) (second : Frame i t u) :
    Frame i s u :=
  ⟨second.op.trans first.op, second.held.trans first.held, second.parsers.trans first.parsers,
    second.savers.trans first.savers⟩

theorem Frame.known {i : Nat} {s t : Session} (frame : Frame i s t) (known : i < s.state.ops.length) :
    i < t.state.ops.length := by
  have some := List.getElem?_eq_getElem known
  rw [← frame.op] at some
  exact (List.getElem?_eq_some_iff.mp some).1

section Frames

variable {i : Nat} {s : Session}

theorem note_frame {op : Nat} (other : op ≠ i) (f : Op → Op) : Frame i s (s.modify (·.note op f)) :=
  ⟨by simp [Manager.note, other], rfl, rfl, rfl⟩

theorem decrement_frame {op : Nat} (other : op ≠ i) (ioc : Nat) :
    Frame i s (s.modify (decrementOutstandingOperations op ioc)) :=
  ⟨by simp [other], rfl, by simp, by simp⟩

theorem start_frame {h : Handler} (other : h.op ≠ i) : Frame i s (s.start h) :=
  ⟨rfl, by simp [Loop.held_start, other], rfl, rfl⟩

theorem findParser_frame {op : Nat} (other : op ≠ i) (parse : Bool) : Frame i s (findParser op parse s) := by
  unfold findParser
  split
  · exact note_frame other _
  · exact ⟨rfl, rfl, rfl, rfl⟩

theorem increment_frame (known : i < s.state.ops.length) (o : Op) :
    Frame i s (s.modify (incrementOutstandingOperations o)) := by
  refine ⟨?_, rfl, rfl, rfl⟩
  exact List.getElem?_append_left known

theorem perform_frame (known : i < s.state.ops.length) (c : Call) : Frame i s (c.perform s).1 := by
  have other : s.state.ops.length ≠ i := by omega
  cases c with
  | load c throws =>
    by_cases registered : (getURLComponents c.url).2.pre ∈ s.state.loaders
    · rw [Call.perform, loadASync, if_pos registered]
      have accepted := increment_frame known { ioc := c.ioc, finalcall := c.finalcall }
      cases throws with
      | true => exact accepted.trans (note_frame other _)
      | false => exact accepted.trans (start_frame other)
    · rw [Call.perform, loadASync, if_neg registered]
      exact ⟨rfl, rfl, rfl, rfl⟩
  | save c throws =>
    by_cases registered : (getURLComponents c.url).2.pre ∈ s.state.savers
    · rw [Call.perform, saveASync, if_pos registered]
      have accepted := increment_frame known { ioc := c.ioc, finalcall := c.finalcall }
      cases throws with
      | true => exact (accepted.trans (decrement_frame other _)).trans (note_frame other _)
      | false => exact accepted.trans (start_frame other)
    · rw [Call.perform, saveASync, if_neg registered]
      exact ⟨rfl, rfl, rfl, rfl⟩

theorem performAll_frame (known : i < s.state.ops.length) (calls : List Call) :
    Frame i s (performAll calls s) := by
  induction calls generalizing s with
  | nil => exact ⟨rfl, rfl, rfl, rfl⟩
  | cons c calls ih =>
    have first := perform_frame known c
    exact first.trans (ih (first.known known))

theorem invokeFinalcall_frame (known : i < s.state.ops.length) {op : Nat} (other : op ≠ i)
    (finalcall : Bool) (buffers : ResultType) (env : Env) :
    Frame i s (invokeFinalcall op finalcall buffers env s) := by
  cases finalcall with
  | false => exact ⟨rfl, rfl, rfl, rfl⟩
  | true =>
    have told := note_frame (s := s) other (Op.tell buffers)
    exact told.trans (performAll_frame (told.known known) env.calls)

/-- The callback of another operation leaves `i` alone. -/
theorem run_frame {t : Session} (known : i < s.state.ops.length) {x : Handler} (other : x.op ≠ i)
    {e : Outcome} {env : Env} (hr : x.run e env s = some t) : Frame i s t := by
  have settle {u : Session} (known : i < u.state.ops.length) (ioc : Nat) (finalcall : Bool) (buffers : ResultType) :
      Frame i u (invokeFinalcall x.op finalcall buffers env (u.modify (decrementOutstandingOperations x.op ioc))) := by
    have decremented := decrement_frame (s := u) other ioc
    exact decremented.trans (invokeFinalcall_frame (decremented.known known) other finalcall buffers env)
  cases x with
  | handleRead op call filePath suffix =>
    cases e with
    | written => cases hr
    | read c =>
      obtain rfl := Option.some.inj hr
      have looked := findParser_frame (s := s) other c.parse
      have known' := looked.known known
      unfold handleRead
      split
      · refine looked.trans ?_
        dsimp only
        split
        · split
          · exact note_frame other _
          · split
            · exact note_frame other _
            · have started := start_frame (s := findParser op c.parse s)
                (h := .nestedWrite op call.ioc call.savetype suffix c.buffers) other
              exact started.trans (invokeFinalcall_frame (started.known known') other _ _ _)
        · exact settle known' _ _ _
      · exact settle known _ _ _
  | nestedWrite op ioc savetype suffix buffers =>
    cases e with
    | read c => cases hr
    | written =>
      obtain rfl := Option.some.inj hr
      exact decrement_frame other ioc
  | handleWrite op call filePath suffix =>
    cases e with
    | read c => cases hr
    | written =>
      obtain rfl := Option.some.inj hr
      exact settle known _ _ _

end Frames

/-- How the record of the load goes with the callback that is held for it. -/
inductive Life (o : Outcomes) (m : Manager) (c : Load) : List (Entry Handler Outcome) → Op → Prop
  | reading {op : Nat} {filePath suffix : Str} {out : Option Outcome} :
      (∀ e, out = some e → ∃ r, e = .read r ∧ o.reads c r) →
      Life o m c [⟨.handleRead op c filePath suffix, out⟩] c.fresh
  | saving {op ioc : Nat} {savetype suffix : Str} {buffers : ResultType} {out : Option Outcome} :
      (∀ e, out = some e → e = .written) → o.final m c = (o.told m c).decrement →
      Life o m c [⟨.nestedWrite op ioc savetype suffix buffers, out⟩] (o.told m c)
  | ended : Life o m c [] (o.final m c)

structure Lives (o : Outcomes) (i : Nat) (m : Manager) (c : Load) (s : Session) : Prop where
  parsers : s.state.parsers = m.parsers
  savers : s.state.savers = m.savers
  life : ∃ p, s.state.ops[i]? = some p ∧ Life o m c (s.held fun h => h.op = i) p

theorem Lives.frame {o : Outcomes} {i : Nat} {m : Manager} {c : Load} {s t : Session}
    (hs : Lives o i m c s) (frame : Frame i s t) : Lives o i m c t := by
  obtain ⟨p, hp, life⟩ := hs.life
  refine ⟨frame.parsers.trans hs.parsers, frame.savers.trans hs.savers, p, frame.op.trans hp, ?_⟩
  rwa [frame.held]

theorem Life.short {o : Outcomes} {m : Manager} {c : Load} {xs : List (Entry Handler Outcome)} {p : Op}
    (h : Life o m c xs p) : xs.length ≤ 1 := by
  cases h <;> simp

/-- The record after `finalcall`, if there is one, has been told. -/
theorem invokeFinalcall_op {i : Nat} {s : Session} {p : Op} (hp : s.state.ops[i]? = some p)
    (finalcall : Bool) (buffers : ResultType) (env : Env) :
    (invokeFinalcall i finalcall buffers env s).state.ops[i]? =
      some (if finalcall then p.tell buffers else p) ∧
    (invokeFinalcall i finalcall buffers env s).held (fun h => h.op = i) = s.held (fun h => h.op = i) ∧
    (invokeFinalcall i finalcall buffers env s).state.parsers = s.state.parsers ∧
    (invokeFinalcall i finalcall buffers env s).state.savers = s.state.savers := by
  cases finalcall with
  | false => exact ⟨hp, rfl, rfl, rfl⟩
  | true =>
    have known : i < (s.modify (·.note i (Op.tell buffers))).state.ops.length := by
      simpa [Manager.note] using (List.getElem?_eq_some_iff.mp hp).1
    have frame := performAll_frame known env.calls
    refine ⟨?_, frame.held, frame.parsers, frame.savers⟩
    have told : (s.modify (·.note i (Op.tell buffers))).state.ops[i]? = some (p.tell buffers) := by
      simp [Manager.note, hp]
    exact frame.op.trans told

/-- How many steps of the load can follow. -/
def remaining (xs : List (Entry Handler Outcome)) : Nat :=
  (xs.map fun x => (match x.handler with
    | .handleRead .. => 3
    | .nestedWrite .. => 1
    | .handleWrite .. => 3) + if x.outcome = none then 1 else 0).sum

section Run

variable {o : Outcomes} {i : Nat} {m : Manager} {c : Load} {s : Session}

/-- The record of the load once its parser has been looked up. -/
theorem findParser_op (parsers : s.state.parsers = m.parsers) (hp : s.state.ops[i]? = some c.fresh) {data : Option Payload}
    (found : o.buffers = .success data) : (findParser i c.parse s).state.ops[i]? = some (o.looked m c) := by
  unfold findParser Outcomes.looked
  rw [found, parsers]
  split <;> simp_all [Manager.note]

theorem Lives.settle (parsers : s.state.parsers = m.parsers) (savers : s.state.savers = m.savers)
    (hp : s.state.ops[i]? = some (o.looked m c)) (gone : s.held (fun h => h.op = i) = [])
    (final : o.final m c = (o.told m c).decrement) (env : Env) :
    Lives o i m c (invokeFinalcall i c.finalcall o.buffers env
      (s.modify (decrementOutstandingOperations i c.ioc))) ∧
    (invokeFinalcall i c.finalcall o.buffers env
      (s.modify (decrementOutstandingOperations i c.ioc))).held (fun h => h.op = i) = [] := by
  have decremented : (s.modify (decrementOutstandingOperations i c.ioc)).state.ops[i]? =
      some (o.looked m c).decrement := by simp [hp]
  obtain ⟨told, held, keptParsers, keptSavers⟩ := invokeFinalcall_op decremented c.finalcall o.buffers env
  have none := held.trans gone
  refine ⟨⟨?_, ?_, _, told, ?_⟩, none⟩
  · rw [keptParsers]
    simpa using parsers
  · rw [keptSavers]
    simpa using savers
  · have same : (if c.finalcall then (o.looked m c).decrement.tell o.buffers else (o.looked m c).decrement) =
        o.final m c := by
      rw [final, Outcomes.told]
      cases c.finalcall <;> rfl
    rw [none, same]
    exact .ended

/-- The callback of the load, when its loader and its saver turn out as `o` says. -/
theorem Lives.handleRead (parsers : s.state.parsers = m.parsers) (savers : s.state.savers = m.savers)
    (hp : s.state.ops[i]? = some c.fresh) (gone : s.held (fun h => h.op = i) = [])
    {r : ReadCall} (reads : o.reads c r) (suffix : Str) {env : Env}
    (throws : env.saverThrows = o.saverThrows) :
    Lives o i m c (handleRead i c suffix r env s) ∧
      remaining ((handleRead i c suffix r env s).held fun h => h.op = i) ≤ 2 := by
  obtain ⟨buffers, parse, save⟩ := r
  obtain ⟨rfl, flags⟩ := reads
  cases found : o.buffers with
  | failure err =>
    have looked : o.looked m c = c.fresh := by simp [Outcomes.looked, found]
    have settled := Lives.settle (o := o) (m := m) parsers savers (looked ▸ hp) gone (by simp [Outcomes.final, found]) env
    rw [found] at settled
    refine ⟨settled.1, ?_⟩
    change remaining ((invokeFinalcall i c.finalcall (.failure err) env
      (s.modify (decrementOutstandingOperations i c.ioc))).held fun h => h.op = i) ≤ 2
    rw [settled.2]
    exact Nat.zero_le _
  | success data =>
    obtain ⟨rfl, rfl⟩ := flags data found
    have none : remaining ([] : List (Entry Handler Outcome)) ≤ 2 := Nat.zero_le _
    have past : FileManager.handleRead i c suffix ⟨.success data, c.parse, c.save⟩ env s =
        if c.save then
          if c.savetype ∉ (findParser i c.parse s).state.savers then
            (findParser i c.parse s).modify (·.note i Op.dereferenceEnd)
          else if env.saverThrows then (findParser i c.parse s).modify (·.note i Op.failSave)
          else invokeFinalcall i c.finalcall (.success data) env
            ((findParser i c.parse s).start (.nestedWrite i c.ioc c.savetype suffix (.success data)))
        else invokeFinalcall i c.finalcall (.success data) env
          ((findParser i c.parse s).modify (decrementOutstandingOperations i c.ioc)) := rfl
    have final : o.final m c =
        if c.save then
          if c.savetype ∉ m.savers then (o.looked m c).dereferenceEnd
          else if o.saverThrows then (o.looked m c).failSave
          else (o.told m c).decrement
        else (o.told m c).decrement := by
      rw [Outcomes.final, found]
    have looked := findParser_op parsers hp found
    have parsers := (findParser_parsers i c.parse s).trans parsers
    have savers := (findParser_savers i c.parse s).trans savers
    have gone : (findParser i c.parse s).held (fun h => h.op = i) = [] := by
      rw [Loop.held, findParser_pool]
      exact gone
    rw [past]
    generalize findParser i c.parse s = u at *
    have aside (f : Op → Op) (final : o.final m c = f (o.looked m c)) : Lives o i m c (u.modify (·.note i f)) := by
      refine ⟨parsers, savers, o.final m c, ?_, ?_⟩
      · simp [Manager.note, looked, final]
      · rw [Loop.held_modify, gone]
        exact .ended
    cases save : c.save with
    | false =>
      rw [save] at final
      have settled := Lives.settle (o := o) parsers savers looked gone final env
      rw [found] at settled
      rw [if_neg (by simp), settled.2]
      exact ⟨settled.1, none⟩
    | true =>
      rw [save, if_pos rfl] at final
      rw [if_pos rfl, savers]
      by_cases unsaved : c.savetype ∉ m.savers
      · rw [if_pos unsaved] at final
        rw [if_pos unsaved, Loop.held_modify, gone]
        exact ⟨aside _ final, none⟩
      · rw [if_neg unsaved] at final
        rw [if_neg unsaved, throws]
        cases thrown : o.saverThrows with
        | true =>
          rw [thrown, if_pos rfl] at final
          rw [if_pos rfl, Loop.held_modify, gone]
          exact ⟨aside _ final, none⟩
        | false =>
          rw [thrown, if_neg (by simp)] at final
          rw [if_neg (by simp)]
          have started : (u.start (.nestedWrite i c.ioc c.savetype suffix (.success data))).state.ops[i]? =
            some (o.looked m c) := looked
          obtain ⟨told, held, keptParsers, keptSavers⟩ :=
            invokeFinalcall_op started c.finalcall (.success data) env
          have nested := held.trans (Loop.held_start _)
          rw [gone, List.nil_append, if_pos (by simp [Handler.op])] at nested
          rw [nested]
          refine ⟨⟨keptParsers.trans parsers, keptSavers.trans savers, _, told, ?_⟩, Nat.le_refl _⟩
          rw [nested, ← found]
          exact .saving (by simp) final

end Run

theorem Lives.step {o : Outcomes} {i : Nat} {m : Manager} {c : Load} {s t : Session}
    {l : Label Outcome Env Call} (hs : Lives o i m c s) (follows : Follows o i c s l)
    (h : machine.step s l = some t) : Lives o i m c t := by
  obtain ⟨p, hp, life⟩ := hs.life
  have known : i < s.state.ops.length := (List.getElem?_eq_some_iff.mp hp).1
  rcases Machine.step_cases h with
    ⟨k, e, x, hl, hk, ends, rfl⟩ | ⟨k, env, x, e, rest, hl, hk, hr⟩ | ⟨c', _, hr⟩
  · by_cases own : x.op = i
    · obtain ⟨before, after⟩ := Loop.held_finish_own (e := e) hk (decide_eq_true own) life.short
      refine ⟨hs.parsers, hs.savers, p, hp, ?_⟩
      rw [before] at life
      rw [after]
      cases life with
      | reading _ =>
        cases e with
        | read r =>
          have reads := follows.1 k r _ hl hk own
          exact .reading fun d same => ⟨r, (Option.some.inj same).symm, reads⟩
        | written => cases ends
      | saving _ final =>
        cases e with
        | read r => cases ends
        | written => exact .saving (fun d same => (Option.some.inj same).symm) final
    · exact hs.frame ⟨rfl, Loop.held_finish_other hk (decide_eq_false own), rfl, rfl⟩
  · by_cases own : x.op = i
    · obtain ⟨before, gone⟩ := Loop.held_takeAt_own hk (decide_eq_true own) life.short
      have throws := follows.2 k env _ rest hl hk own
      rw [before] at life
      cases life with
      | @reading op filePath suffix _ queued =>
        obtain rfl : op = i := own
        obtain ⟨r, rfl, reads⟩ := queued e rfl
        obtain rfl := Option.some.inj hr
        exact (Lives.handleRead (s := { s with pool := rest }) hs.parsers hs.savers hp gone reads suffix throws).1
      | @saving op ioc savetype suffix buffers _ queued final =>
        obtain rfl : op = i := own
        obtain rfl := queued e rfl
        obtain rfl := Option.some.inj hr
        refine ⟨?_, ?_, o.final m c, ?_, ?_⟩
        · simpa [nestedWrite] using hs.parsers
        · simpa [nestedWrite] using hs.savers
        · simp [nestedWrite, hp, final]
        · rw [nestedWrite, Loop.held_modify, gone]
          exact .ended
    · have left : Lives o i m c { s with pool := rest } :=
        hs.frame ⟨rfl, Loop.held_takeAt_other hk (decide_eq_false own), rfl, rfl⟩
      exact left.frame (run_frame (s := { s with pool := rest }) known own hr)
  · obtain rfl := Option.some.inj hr
    exact hs.frame (perform_frame known c')

theorem Lives.progress {o : Outcomes} {i : Nat} {m : Manager} {c : Load} {s : Session}
    (hs : Lives o i m c s) (busy : s.held (fun h => h.op = i) ≠ []) :
    ∃ l t, Follows o i c s l ∧ machine.step s l = some t ∧
      remaining (t.held fun h => h.op = i) < remaining (s.held fun h => h.op = i) := by
  obtain ⟨p, hp, life⟩ := hs.life
  have short := life.short
  obtain ⟨⟨h, out⟩, tail, only⟩ := List.exists_cons_of_ne_nil busy
  obtain rfl : tail = [] := by
    rw [only, List.length_cons] at short
    exact List.length_eq_zero_iff.mp (by omega)
  obtain ⟨mem, own⟩ := List.mem_filter.mp (only ▸ List.mem_singleton_self _)
  have finish (e : Outcome) (waiting : out = none) (ends : h.completes e = true)
      (reads : ∀ r, e = .read r → o.reads c r) :
      ∃ l t, Follows o i c s l ∧ machine.step s l = some t ∧
        remaining (t.held fun h => h.op = i) < remaining (s.held fun h => h.op = i) := by
    subst waiting
    obtain ⟨k, hk⟩ := List.mem_iff_getElem?.mp mem
    obtain ⟨before, after⟩ := Loop.held_finish_own (e := e) hk own short
    refine ⟨.finish k e, { s with pool := s.pool.set k ⟨h, some e⟩ }, ⟨?_, ?_⟩, ?_, ?_⟩
    · rintro _ r _ ⟨rfl, rfl⟩ _ _
      exact reads r rfl
    · rintro _ _ _ _ ⟨⟩
    · simp only [Machine.step, hk]
      exact if_pos ends
    · rw [before, after]
      simp [remaining]
  have run (e : Outcome) (queued : out = some e) (t : Session → Session)
      (runs : ∀ u, h.run e { saverThrows := o.saverThrows } u = some (t u))
      (lower : ∀ u, u.held (fun h => h.op = i) = [] → u.state = s.state →
        remaining ((t u).held fun h => h.op = i) < remaining [⟨h, some e⟩]) :
      ∃ l t, Follows o i c s l ∧ machine.step s l = some t ∧
        remaining (t.held fun h => h.op = i) < remaining (s.held fun h => h.op = i) := by
    subst queued
    obtain ⟨k, rest, hk⟩ := takeAt_of_mem mem
    obtain ⟨before, gone⟩ := Loop.held_takeAt_own hk own short
    refine ⟨.run k { saverThrows := o.saverThrows }, t { s with pool := rest }, ⟨?_, ?_⟩, ?_, ?_⟩
    · rintro _ _ _ ⟨⟩
    · rintro _ _ _ _ ⟨rfl, rfl⟩ _ _
      rfl
    · simp only [Machine.step, hk]
      exact runs _
    · rw [before]
      exact lower _ gone rfl
  rw [only] at life
  cases life with
  | @reading op filePath suffix _ queued =>
    obtain rfl : op = i := of_decide_eq_true own
    cases waiting : out with
    | none => exact finish (.read ⟨o.buffers, c.parse, c.save⟩) waiting rfl (by
        rintro _ ⟨rfl⟩
        exact ⟨rfl, fun _ _ => ⟨rfl, rfl⟩⟩)
    | some e =>
      obtain ⟨r, rfl, reads⟩ := queued e waiting
      refine run (.read r) waiting (fun u => FileManager.handleRead op c suffix r { saverThrows := o.saverThrows } u)
        (fun _ => rfl) ?_
      intro u gone same
      have lives := Lives.handleRead (s := u) (o := o) (m := m) (same ▸ hs.parsers) (same ▸ hs.savers)
        (same ▸ hp) gone reads suffix
        (rfl : ({ saverThrows := o.saverThrows } : Env).saverThrows = o.saverThrows)
      exact Nat.lt_of_le_of_lt lives.2 (Nat.lt_succ_self 2)
  | @saving op ioc savetype suffix buffers _ queued _ =>
    cases waiting : out with
    | none => exact finish .written waiting rfl (by rintro _ ⟨⟩)
    | some e =>
      obtain rfl := queued e waiting
      refine run .written waiting (fun u => nestedWrite op ioc u) (fun _ => rfl) ?_
      intro u gone _
      rw [nestedWrite, Loop.held_modify, gone]
      exact Nat.zero_lt_one

theorem Lives.ends {o : Outcomes} {i : Nat} {m : Manager} {c : Load} {s : Session} (hs : Lives o i m c s) :
    ∃ t, Reaches machine.step (Follows o i c) s t ∧ t.held (fun h => h.op = i) = [] :=
  Reaches.ends (fun t => remaining (t.held fun h => h.op = i))
    (fun _ _ _ ht follows hstep => ht.step follows hstep) (fun _ ht busy => ht.progress busy) hs

/-- An accepted load whose loader does not throw starts its life. -/
theorem lives_loadASync {s : Session} (hs : Accounted s) (o : Outcomes) (c : Load)
    (registered : (getURLComponents c.url).2.pre ∈ s.state.loaders) :
    Lives o s.state.ops.length s.state c (loadASync c false s).1 := by
  have none : s.held (fun h => h.op = s.state.ops.length) = [] :=
    List.map_eq_nil_iff.mp (hs.unknown _ (Nat.le_refl _))
  rw [loadASync, if_pos registered]
  refine ⟨rfl, rfl, c.fresh, List.getElem?_concat_length .., ?_⟩
  change Life o s.state c ((Loop.start _ _).held _) _
  rw [Loop.held_start, Loop.held_modify, none, List.nil_append, if_pos (by simp [Handler.op])]
  exact .reading (by simp)

/-- What handle_read needs so that it neither dereferences an end nor throws. -/
def Outcomes.handled (o : Outcomes) (m : Manager) (c : Load) : Prop :=
  ∀ data, o.buffers = .success data → (c.parse = true → "mnn".toList ∈ m.parsers) ∧
    (c.save = true → c.savetype ∈ m.savers ∧ o.saverThrows = false)

theorem looked_fresh (o : Outcomes) (m : Manager) (c : Load) :
    (o.looked m c).decrements = 0 ∧ (o.looked m c).reports = 0 := by
  unfold Outcomes.looked
  split
  · split <;> exact ⟨rfl, rfl⟩
  · exact ⟨rfl, rfl⟩

theorem told_reports (o : Outcomes) (m : Manager) (c : Load) :
    (o.told m c).decrements = 0 ∧ (o.told m c).endDereferenced = (o.looked m c).endDereferenced ∧
      (o.told m c).reports = c.finalcall.toNat := by
  obtain ⟨undecremented, unreported⟩ := looked_fresh o m c
  rw [Outcomes.told]
  cases c.finalcall with
  | false => exact ⟨undecremented, rfl, unreported⟩
  | true =>
    refine ⟨undecremented, rfl, ?_⟩
    simp only [Op.reports, Nat.add_eq_zero_iff] at unreported
    simp [Op.reports, Op.tell, unreported]

theorem looked_handled {o : Outcomes} {m : Manager} {c : Load} (handled : o.handled m c) :
    o.looked m c = c.fresh := by
  unfold Outcomes.looked
  split
  next data found => exact if_neg fun unparsed => unparsed.2 ((handled data found).1 unparsed.1)
  next => rfl

theorem final_handled {o : Outcomes} {m : Manager} {c : Load} (handled : o.handled m c) :
    o.final m c = (o.told m c).decrement := by
  rw [Outcomes.final]
  cases found : o.buffers with
  | failure err => rfl
  | success data =>
    obtain ⟨_, saved⟩ := handled data found
    cases save : c.save with
    | false => rfl
    | true =>
      obtain ⟨known, kept⟩ := saved save
      simp only [if_true]
      rw [if_neg (not_not.mpr known), kept]
      rfl

/-- Without its saver a load is never decremented. -/
theorem final_unsaved {o : Outcomes} {m : Manager} {c : Load} (save : c.save = true) {data : Option Payload}
    (found : o.buffers = .success data) (h : ¬ (c.savetype ∈ m.savers ∧ o.saverThrows = false)) :
    (o.final m c).decrements = 0 := by
  have fresh := (looked_fresh o m c).1
  rw [Outcomes.final, found]
  simp only [save, if_true]
  by_cases unknown : c.savetype ∉ m.savers
  · rw [if_pos unknown]
    exact fresh
  · have throws : o.saverThrows = true := by
      cases thrown : o.saverThrows with
      | true => rfl
      | false => exact absurd ⟨not_not.mp unknown, thrown⟩ h
    rw [if_neg unknown, if_pos throws]
    exact fresh

/-- The record shows an `end()`, or that the decrement is missing. -/
theorem final_unhandled {o : Outcomes} {m : Manager} {c : Load} (h : ¬ o.handled m c) :
    (o.final m c).endDereferenced = true ∨ (o.final m c).decrements = 0 := by
  simp only [Outcomes.handled, not_forall] at h
  obtain ⟨data, found, h⟩ := h
  by_cases unsaved : c.save = true → c.savetype ∈ m.savers ∧ o.saverThrows = false
  · left
    have unparsed : c.parse = true ∧ "mnn".toList ∉ m.parsers := by
      obtain ⟨parse, missing⟩ := Classical.not_imp.mp fun parsed => h ⟨parsed, unsaved⟩
      exact ⟨parse, missing⟩
    have looked : (o.looked m c).endDereferenced = true := by
      rw [Outcomes.looked, found]
      simp only [if_pos unparsed]
      rfl
    have told := (told_reports o m c).2.1.trans looked
    rw [Outcomes.final, found]
    dsimp only
    split
    · split
      · rfl
      · split
        · exact looked
        · exact told
    · exact told
  · obtain ⟨save, unsaved⟩ := Classical.not_imp.mp unsaved
    exact .inr (final_unsaved save found unsaved)

/-- The record of a load whose completion is handled. -/
theorem Life.settled {o : Outcomes} {m : Manager} {c : Load} {xs : List (Entry Handler Outcome)} {p : Op}
    (h : Life o m c xs p) (handled : o.handled m c) (set : c.finalcall = true) :
    p.decrements ≤ 1 ∧ p.reports ≤ 1 ∧ p.endDereferenced = false ∧
      (xs = [] → p.decrements = 1 ∧ p.reports = 1) := by
  obtain ⟨undecremented, kept, told⟩ := told_reports o m c
  rw [set] at told
  rw [looked_handled handled] at kept
  cases h with
  | reading _ => exact ⟨Nat.zero_le _, Nat.zero_le _, rfl, by simp⟩
  | saving _ _ => exact ⟨by omega, Nat.le_of_eq told, kept, by simp⟩
  | ended =>
    rw [final_handled handled]
    have once : (o.told m c).decrement.decrements = 1 := by simp [Op.decrement, undecremented]
    exact ⟨Nat.le_of_eq once, Nat.le_of_eq told, kept, fun _ => ⟨once, told⟩⟩

theorem Life.handled {o : Outcomes} {m : Manager} {c : Load} {p : Op} (h : Life o m c [] p)
    (once : p.decrements = 1) (reported : p.reports = 1) (kept : p.endDereferenced = false) :
    c.finalcall = true ∧ o.handled m c := by
  cases h with
  | ended =>
    have handled : o.handled m c := by
      by_contra unhandled
      rcases final_unhandled unhandled with missing | undecremented
      · rw [kept] at missing
        cases missing
      · omega
    have told := (told_reports o m c).2.2
    rw [final_handled handled] at reported
    refine ⟨?_, handled⟩
    cases set : c.finalcall with
    | true => rfl
    | false =>
      rw [set] at told
      exact absurd (told.symm.trans reported) (by simp)

/-- A load whose loader throws is never decremented. -/
theorem thrown_unsettled {s : Session} (hs : Accounted s) (c : Load)
    (registered : (getURLComponents c.url).2.pre ∈ s.state.loaders) :
    ∃ p, (loadASync c true s).1.state.ops[s.state.ops.length]? = some p ∧ p.decrements = 0 ∧
      callbacks s.state.ops.length (loadASync c true s).1 = [] := by
  rw [loadASync, if_pos registered, if_pos rfl]
  refine ⟨c.fresh.throw, ?_, rfl, hs.unknown _ (Nat.le_refl _)⟩
  simp [incrementOutstandingOperations, Manager.note, Load.fresh]

/-- A load settles exactly when it is rejected, or its loader does not throw, its
`finalcall` is set, and handle_read finds the parser and the saver it needs and
the nested save does not throw. -/
theorem load_settles_iff {loaders parsers savers : List Str} {s : Session}
    (reach : Reaches machine.step Free (started loaders parsers savers) s) (o : Outcomes) (c : Load) :
    LoadSettles o c s ↔ (getURLComponents c.url).2.pre ∉ s.state.loaders ∨
      (o.loaderThrows = false ∧ c.finalcall = true ∧ ∀ data, o.buffers = .success data →
        (c.parse = true → "mnn".toList ∈ s.state.parsers) ∧
        (c.save = true → c.savetype ∈ s.state.savers ∧ o.saverThrows = false)) := by
  have hs := reaches_accounted reach
  by_cases registered : (getURLComponents c.url).2.pre ∈ s.state.loaders
  · have accepted : (loadASync c o.loaderThrows s).2 ≠ .rangeError := by
      rw [loadASync, if_pos registered]
      cases o.loaderThrows <;> simp
    cases throws : o.loaderThrows with
    | true =>
      refine ⟨?_, fun fine => fine.elim (absurd registered) (fun fine => absurd fine.1 (by simp))⟩
      rintro (⟨rejected, _⟩ | settles)
      · exact absurd rejected accepted
      · obtain ⟨p, hp, undecremented, none⟩ := thrown_unsettled hs c registered
        rw [throws] at settles
        obtain ⟨q, hq, _, _, _, once⟩ := (settles _ .start).1
        cases hp.symm.trans hq
        have := (once none).1
        omega
    | false =>
      have start := lives_loadASync hs o c registered
      have alive {t : Session} (more : Reaches machine.step (Follows o s.state.ops.length c)
          (loadASync c false s).1 t) : Lives o s.state.ops.length s.state c t :=
        more.invariant (fun _ _ _ ht follows hstep => ht.step follows hstep) start
      constructor
      · rintro (⟨rejected, _⟩ | settles)
        · exact absurd rejected accepted
        · rw [throws] at settles
          obtain ⟨u, more, gone⟩ := start.ends
          obtain ⟨p, hp, _, _, kept, once⟩ := (settles u more).1
          obtain ⟨decremented, reported⟩ := once (by rw [callbacks, gone]; rfl)
          obtain ⟨q, hq, life⟩ := (alive more).life
          cases hp.symm.trans hq
          rw [gone] at life
          exact .inr ⟨rfl, life.handled decremented reported kept⟩
      · rintro (rejected | ⟨_, set, handled⟩)
        · exact absurd registered rejected
        · right
          rw [throws]
          intro t more
          obtain ⟨p, hp, life⟩ := (alive more).life
          obtain ⟨once, told, kept, settled⟩ := life.settled handled set
          refine ⟨⟨p, hp, once, told, kept, fun none => settled (List.map_eq_nil_iff.mp none)⟩, ?_⟩
          obtain ⟨u, rest, gone⟩ := (alive more).ends
          exact ⟨u, rest, by rw [callbacks, gone]; rfl⟩
  · refine ⟨fun _ => .inl registered, fun _ => .inl ?_⟩
    rw [loadASync, if_neg registered]
    exact ⟨rfl, rfl⟩

theorem load_settles_iff_page :
    LoadSettles ⟨false, .success none, false⟩ page (started ["https".toList] [] ["file".toList]) := by
  refine (load_settles_iff .start _ _).mpr (.inr ⟨rfl, rfl, fun _ _ => ⟨by decide, fun _ => ⟨?_, rfl⟩⟩⟩)
  exact List.mem_singleton_self _

def parsed : Load := ⟨"https://h/p".toList, true, false, 0, true, []⟩

/-- The singletons register no parser, so parsing a loaded page dereferences `end()`;
the page is reported all the same. -/
theorem parsed_load_unsettled :
    ¬ LoadSettles ⟨false, .success none, false⟩ parsed ⟨initializeSingletons {}, []⟩ := by
  rintro (⟨rejected, _⟩ | settles)
  · exact absurd rejected (by decide)
  · have read : machine.step (loadASync parsed false ⟨initializeSingletons {}, []⟩).1
        (.finish 0 (.read ⟨.success none, true, false⟩)) =
        some ⟨(loadASync parsed false ⟨initializeSingletons {}, []⟩).1.state,
          [⟨.handleRead 0 parsed "h/p".toList [], some (.read ⟨.success none, true, false⟩)⟩]⟩ := by decide
    have first := Reaches.one (C := Follows ⟨false, .success none, false⟩ 0 parsed) (by
      refine ⟨?_, by rintro _ _ _ _ ⟨⟩⟩
      rintro _ _ _ ⟨rfl, rfl⟩ _ _
      exact ⟨rfl, fun _ _ => ⟨rfl, rfl⟩⟩) read
    have run : machine.step ⟨(loadASync parsed false ⟨initializeSingletons {}, []⟩).1.state,
        [⟨.handleRead 0 parsed "h/p".toList [], some (.read ⟨.success none, true, false⟩)⟩]⟩ (.run 0 {}) =
        some (handleRead 0 parsed [] ⟨.success none, true, false⟩ {}
          ⟨(loadASync parsed false ⟨initializeSingletons {}, []⟩).1.state, []⟩) := rfl
    have second := first.next (by
      refine ⟨by rintro _ _ _ ⟨⟩, ?_⟩
      rintro _ _ _ _ ⟨rfl, rfl⟩ _ _
      rfl) run
    obtain ⟨p, hp, _, _, kept, _⟩ := (settles _ second).1
    have record : (handleRead 0 parsed [] ⟨.success none, true, false⟩ {}
        ⟨(loadASync parsed false ⟨initializeSingletons {}, []⟩).1.state, []⟩).state.ops[0]? =
        some ((parsed.fresh.dereferenceEnd.decrement).tell (.success none)) := by decide
    obtain rfl := Option.some.inj (record.symm.trans hp)
    cases kept

end FileManager

end AsyncIOManager
