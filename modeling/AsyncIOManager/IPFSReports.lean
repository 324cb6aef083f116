import AsyncIOManager.IPFSLoader

namespace AsyncIOManager

open Reactor

namespace IPFSDevice

variable {lib : Libp2p} {s t : Serving} {parse save : Bool}

/-- What a handler will report carries these flags. -/
def Handler.Flagged (parse save : Bool) : Handler → Prop
  | findProviders _ q => q.parse = parse ∧ q.save = save
  | retry _ q => q.parse = parse ∧ q.save = save
  | requestContent _ _ p q => p = parse ∧ q = save
  | handleRead _ c => c.Flags parse save

/-- An entry that can go on: a report is posted, and what has finished fits its handler. -/
def Able (x : Entry Handler Ec) : Prop :=
  match x.handler, x.outcome with
  | .handleRead _ _, o => o = some .posted
  | _, none => True
  | .retry _ _, some e => e = .expired ∨ e = .aborted
  | h, some e => h.completes e = true

/-- A handler is followed by one entry for the same load, or by none; a report is handed over. -/
inductive Goes (h : Handler) (s t : Serving) : Prop
  | stops : t.state.loads = s.state.loads → t.pool = s.pool → Goes h s t
  | on (x : Entry Handler Ec) : t.state.loads = s.state.loads → x.handler.load = h.load →
      (∀ parse save, h.Flagged parse save → x.handler.Flagged parse save) → Able x → t.pool = s.pool ++ [x] →
      Goes h s t
  | waits (x : Entry Handler Ec) : t.state.loads = s.state.loads → x.handler.load = h.load →
      (∀ parse save, h.Flagged parse save → x.handler.Flagged parse save) → Able x →
      t.pool = s.pool.map (Entry.abort Handler.isRetry .aborted) ++ [x] → Goes h s t
  | reports (c : ReadCall) : h = .handleRead h.load c → t = handleRead h.load c s → Goes h s t

theorem goes_failure (h : Handler) : Goes h s (postFailure h.load s) :=
  .on ⟨.handleRead h.load (.failure cannotDecode), some .posted⟩ rfl rfl
    (fun parse save _ => flags_failure parse save _ false false) rfl rfl

theorem goes_requestBlockMain {h : Handler} {q : Request}
    (own : ∀ parse save, h.Flagged parse save → q.parse = parse ∧ q.save = save) :
    Goes h s (requestBlockMain lib h.load q s) := by
  rw [requestBlockMain, value]
  split
  next => exact .on ⟨.requestContent h.load q.filename q.parse q.save, none⟩ rfl rfl own trivial rfl
  next => exact .stops rfl rfl

theorem goes_startFindingPeers {h : Handler} {q : Request}
    (own : ∀ parse save, h.Flagged parse save → q.parse = parse ∧ q.save = save) (turn : Turn) :
    Goes h s (startFindingPeers lib h.load q turn s) := by
  unfold startFindingPeers
  split
  next =>
    rw [value]
    split
    next =>
      split
      next => exact .on ⟨.findProviders h.load q, none⟩ rfl rfl own trivial rfl
      next => exact goes_failure h
    next => exact .stops rfl rfl
  next => exact goes_requestBlockMain own

/-- Everything that a handler of the device can do. -/
theorem run_goes {h : Handler} {e : Ec} {turn : Turn} (run : h.run lib e turn s = some t) : Goes h s t := by
  cases h with
  | findProviders i q =>
    cases e with
    | providers res =>
      obtain rfl := Option.some.inj run
      rcases res with _ | (_ | ⟨p, ps⟩)
      · exact goes_failure (.findProviders i q)
      · exact .waits ⟨.retry i q, none⟩ rfl rfl (fun _ _ own => own) trivial rfl
      · simp only [providersHandler, addAddresses, value]
        split
        next accepted =>
          rw [requestBlockMain, value, if_pos accepted]
          exact .on ⟨.requestContent i q.filename q.parse q.save, none⟩ rfl rfl (fun _ _ own => own) trivial rfl
        next => exact .stops rfl rfl
    | _ => cases run
  | retry i q =>
    cases e with
    | expired =>
      obtain rfl := Option.some.inj run
      exact goes_startFindingPeers (h := .retry i q) (fun _ _ own => own) turn
    | aborted =>
      obtain rfl := Option.some.inj run
      exact .stops rfl rfl
    | _ => cases run
  | requestContent i filename p q =>
    cases e with
    | content res =>
      obtain rfl := Option.some.inj run
      cases res with
      | none => exact goes_failure (.requestContent i filename p q)
      | some content =>
        simp only [contentHandler, convertUnixFSContentToResult]
        split
        next =>
          exact .on ⟨.handleRead i ⟨.success (some (unixFSPayload content filename)), p, q⟩, some .posted⟩ rfl rfl
            (fun _ _ own => flags_success _ own) rfl rfl
        next =>
          exact .on ⟨.handleRead i ⟨.failure cannotDecode, p, q⟩, some .posted⟩ rfl rfl
            (fun parse save _ => flags_failure parse save _ p q) rfl rfl
    | _ => cases run
  | handleRead i c =>
    cases e with
    | posted =>
      obtain rfl := Option.some.inj run
      exact .reports c rfl rfl
    | _ => cases run

/-- The device as a load finds it that has just come. -/
def coming (q : Request) (s : Serving) : Serving :=
  s.modify fun d => { d with loads := d.loads ++ [{ request := q }] }

theorem load_goes (lib : Libp2p) (q : Request) (turn : Turn) (s : Serving) :
    Goes (.findProviders s.state.loads.length q) (coming q s) (load lib q turn s) :=
  goes_startFindingPeers (h := .findProviders s.state.loads.length q) (fun _ _ own => own) turn

/-- A load is owed by one entry at most, and by none after its report. -/
def AtMost (s : Serving) : Prop := ∀ i, s.balance (owes i) (delivered i) ≤ 1

theorem owes_load_le (i : Nat) (x : Entry Handler Ec) : owes i x = true → x.handler.load = i := by
  obtain ⟨h, o⟩ := x
  intro owed
  cases h with
  | retry j q =>
    simp only [owes_retry, Bool.and_eq_true, decide_eq_true_eq] at owed
    exact owed.1
  | findProviders j q => simpa [Handler.load] using owed
  | requestContent j filename p q => simpa [Handler.load] using owed
  | handleRead j c => simpa [Handler.load] using owed

theorem countP_abort_le (j : Nat) (pool : List (Entry Handler Ec)) :
    (pool.map (Entry.abort Handler.isRetry .aborted)).countP (owes j) ≤ pool.countP (owes j) := by
  rw [List.countP_map]
  exact List.countP_mono_left fun x _ => owes_abort_le j x

theorem delivered_handleRead (i : Nat) (c : ReadCall) (s : Serving) (j : Nat) :
    delivered j (handleRead i c s).state ≤ delivered j s.state + if i = j then 1 else 0 := by
  simp only [delivered, handleRead, Loop.modify_state, List.getElem?_modify]
  cases s.state.loads[j]? with
  | none => simp
  | some load => by_cases same : i = j <;> simp [same]

/-- A handler adds no more to what is owed than it owed. -/
theorem Goes.balance {h : Handler} {e : Ec} (goes : Goes h s t) (j : Nat)
    (counted : owes h.load ⟨h, some e⟩ = true ∨ t.pool = s.pool ∧ t.state.loads = s.state.loads) :
    t.balance (owes j) (delivered j) ≤
      s.balance (owes j) (delivered j) + if owes j ⟨h, some e⟩ then 1 else 0 := by
  have own (x : Entry Handler Ec) (same : x.handler.load = h.load) (owed : owes h.load ⟨h, some e⟩ = true) :
      (if owes j x then 1 else 0) ≤ if owes j ⟨h, some e⟩ then 1 else 0 := by
    by_cases here : owes j x = true
    · obtain rfl : h.load = j := same.symm.trans (owes_load_le j x here)
      rw [if_pos here, if_pos owed]
    · rw [if_neg here]
      exact Nat.zero_le _
  simp only [Loop.balance]
  rcases counted with owed | ⟨pool, loads⟩
  · cases goes with
    | stops loads pool =>
      rw [pool, delivered_congr loads]
      omega
    | on x loads same _ _ pool =>
      have bound := own x same owed
      rw [pool, delivered_congr loads, List.countP_append, List.countP_singleton]
      omega
    | waits x loads same _ _ pool =>
      have bound := own x same owed
      have fewer := countP_abort_le j s.pool
      rw [pool, delivered_congr loads, List.countP_append, List.countP_singleton]
      omega
    | reports c same eq =>
      have told := delivered_handleRead h.load c s j
      have settled : (if h.load = j then 1 else 0) ≤ if owes j ⟨h, some e⟩ then 1 else 0 := by
        by_cases here : h.load = j
        · rw [here] at owed
          rw [if_pos here, if_pos owed]
        · rw [if_neg here]
          exact Nat.zero_le _
      have pool : (handleRead h.load c s).pool = s.pool := rfl
      rw [eq, pool]
      omega
  · rw [pool, delivered_congr loads]
    omega

/-- No step adds to what a load is owed; a load that has not come counts as owed. -/
theorem step_balance_le {l : Label Ec Turn (Request × Turn)} (h : (machine lib).step s l = some t) (j : Nat) :
    t.balance (owes j) (delivered j) ≤ s.balance (owes j) (delivered j) := by
  rcases Machine.step_cases h with ⟨k, e, x, _, hk, ends, rfl⟩ | ⟨k, o, x, e, rest, _, hk, hr⟩ | ⟨a, _, ha⟩
  · simp only [Loop.balance, countP_set_outcome hk (owes_finish j x e ends)]
    exact Nat.le_refl _
  · have count := takeAt_countP (owes j) hk
    have counted : owes x.load ⟨x, some e⟩ = true ∨ t.pool = rest ∧ t.state.loads = s.state.loads := by
      cases x with
      | retry i q =>
        cases e with
        | aborted =>
          obtain rfl := Option.some.inj hr
          exact .inr ⟨rfl, rfl⟩
        | _ => exact .inl (by simp [Handler.load])
      | findProviders i q => exact .inl (by simp [Handler.load])
      | requestContent i filename p q => exact .inl (by simp [Handler.load])
      | handleRead i c => exact .inl (by simp [Handler.load])
    have bound := (run_goes hr).balance (e := e) j counted
    simp only [Loop.balance] at bound ⊢
    omega
  · obtain rfl := Option.some.inj ha
    have new := delivered_new s.state a.1 j
    have bound := (load_goes lib a.1 a.2 s).balance (e := .posted) j (.inl (by simp [Handler.load]))
    have own : owes j ⟨.findProviders s.state.loads.length a.1, some Ec.posted⟩ =
        decide (s.state.loads.length = j) := by simp
    rw [own] at bound
    simp only [Loop.balance, coming, Loop.modify_pool, Loop.modify_state, decide_eq_true_eq] at bound ⊢
    omega

theorem AtMost.step {l : Label Ec Turn (Request × Turn)} (hs : AtMost s) (h : (machine lib).step s l = some t) :
    AtMost t :=
  fun j => (step_balance_le h j).trans (hs j)

/-- Every entry of the pool can go on. -/
def Ready (s : Serving) : Prop := ∀ x ∈ s.pool, Able x

theorem able_abort {x : Entry Handler Ec} (h : Able x) : Able (x.abort Handler.isRetry .aborted) := by
  unfold Entry.abort
  split
  next running =>
    obtain ⟨own, none⟩ := running
    obtain ⟨k, o⟩ := x
    obtain rfl : o = Option.none := by simpa using none
    cases k with
    | retry i q => exact .inr rfl
    | _ => cases own
  next => exact h

theorem Goes.ready {h : Handler} (goes : Goes h s t) (hs : Ready s) : Ready t := by
  intro y hy
  cases goes with
  | stops _ pool =>
    rw [pool] at hy
    exact hs y hy
  | on x _ _ _ able pool =>
    rw [pool] at hy
    rcases List.mem_append.mp hy with old | last
    · exact hs y old
    · rw [List.mem_singleton.mp last]
      exact able
  | waits x _ _ _ able pool =>
    rw [pool] at hy
    rcases List.mem_append.mp hy with old | last
    · obtain ⟨z, hz, rfl⟩ := List.mem_map.mp old
      exact able_abort (hs z hz)
    · rw [List.mem_singleton.mp last]
      exact able
  | reports c own eq =>
    rw [eq] at hy
    exact hs y hy

theorem Ready.step {l : Label Ec Turn (Request × Turn)} (hs : Ready s) (h : (machine lib).step s l = some t) :
    Ready t := by
  rcases Machine.step_cases h with ⟨k, e, x, _, hk, ends, rfl⟩ | ⟨k, o, x, e, rest, _, hk, hr⟩ | ⟨a, _, ha⟩
  · intro y hy
    rcases List.mem_or_eq_of_mem_set hy with old | rfl
    · exact hs y old
    · cases x with
      | handleRead i c => cases ends
      | retry i q =>
        cases e with
        | expired => exact .inl rfl
        | _ => cases ends
      | findProviders i q | requestContent i filename p q => exact ends
  · exact (run_goes hr).ready fun y hy => hs y (takeAt_rest_mem hk hy)
  · obtain rfl := Option.some.inj ha
    exact (load_goes lib a.1 a.2 s).ready hs

/-- What is reported of a load carries its flags. -/
def Kept (d : Device) (h : Handler) : Prop := ∃ q, requested d h.load = some q ∧ h.Flagged q.parse q.save

abbrev Keeps : Serving → Prop :=
  Carries Kept fun d => ∀ load ∈ d.loads, ∀ c ∈ load.delivered, c.Flags load.request.parse load.request.save

theorem Kept.congr {d e : Device} {h : Handler} (kept : Kept d h) (same : e.loads = d.loads) : Kept e h := by
  rw [Kept, requested, same]
  exact kept

theorem Goes.keeps {h : Handler} (goes : Goes h s t) (kept : Kept s.state h) (hs : Keeps s) : Keeps t := by
  obtain ⟨q, known, flagged⟩ := kept
  have added (x : Entry Handler Ec) (pool : List (Entry Handler Ec)) (loads : t.state.loads = s.state.loads)
      (same : x.handler.load = h.load) (passes : ∀ parse save, h.Flagged parse save → x.handler.Flagged parse save)
      (old : ∀ y ∈ pool, ∃ z ∈ s.pool, z.handler = y.handler) (eq : t.pool = pool ++ [x]) : Keeps t := by
    refine ⟨fun y hy => ?_, by rw [loads]; exact hs.state⟩
    rw [eq] at hy
    rcases List.mem_append.mp hy with before | last
    · obtain ⟨z, hz, own⟩ := old y before
      exact own ▸ (hs.pool z hz).congr loads
    · rw [List.mem_singleton.mp last]
      refine ⟨q, ?_, passes _ _ flagged⟩
      rw [requested, loads, same]
      exact known
  cases goes with
  | stops loads pool =>
    refine ⟨fun y hy => ?_, by rw [loads]; exact hs.state⟩
    rw [pool] at hy
    exact (hs.pool y hy).congr loads
  | on x loads same passes _ pool => exact added x s.pool loads same passes (fun y hy => ⟨y, hy, rfl⟩) pool
  | waits x loads same passes _ pool =>
    refine added x _ loads same passes (fun y hy => ?_) pool
    obtain ⟨z, hz, rfl⟩ := List.mem_map.mp hy
    exact ⟨z, hz, (Entry.abort_handler _ _ z).symm⟩
  | reports c own eq =>
    rw [own] at flagged
    rw [eq]
    refine ⟨fun y hy => ?_, ?_⟩
    · obtain ⟨p, asked, flags⟩ := hs.pool y hy
      refine ⟨p, ?_, flags⟩
      rw [requested, handleRead_requests]
      exact asked
    · refine handleRead_each (D := fun q c => c.Flags q.parse q.save) hs.state fun load at_i => ?_
      rw [requested, at_i] at known
      obtain rfl : load.request = q := Option.some.inj known
      exact flagged

theorem requested_new (d : Device) (q : Request) {j : Nat} {p : Request} (known : requested d j = some p) :
    requested { d with loads := d.loads ++ [{ request := q }] } j = some p := by
  have within : j < d.loads.length := by
    by_contra beyond
    rw [requested, List.getElem?_eq_none (by omega)] at known
    cases known
  rw [requested, List.getElem?_append_left within]
  exact known

theorem Keeps.step {l : Label Ec Turn (Request × Turn)} (hs : Keeps s) (h : (machine lib).step s l = some t) :
    Keeps t := by
  refine Carries.reaches_where (C := Free) ?_ ?_ (Reaches.one trivial h) hs
  · intro u k o x e rest v _ _ own left hr
    exact (run_goes hr).keeps own left
  · intro u a v _ hu ha
    obtain rfl := Option.some.inj ha
    refine (load_goes lib a.1 a.2 u).keeps ⟨a.1, ?_, rfl, rfl⟩ ?_
    · simp [requested, Handler.load, coming]
    · refine Carries.modify hu ?_ ?_
      · rintro k ⟨q, known, flagged⟩
        exact ⟨q, requested_new _ _ known, flagged⟩
      · intro load mem c hc
        rcases List.mem_append.mp mem with old | new
        · exact hu.state load old c hc
        · rw [List.mem_singleton.mp new] at hc
          cases hc

/-- The reports of a load. -/
def reported (i : Nat) (d : Device) : List ReadCall :=
  match d.loads[i]? with
  | some load => load.delivered
  | none => []

theorem reported_congr {d e : Device} (same : e.loads = d.loads) (i : Nat) : reported i e = reported i d := by
  rw [reported, same, reported]

theorem reported_new (d : Device) (q : Request) (i : Nat) :
    reported i { d with loads := d.loads ++ [{ request := q }] } = reported i d := by
  unfold reported
  rcases Nat.lt_trichotomy i d.loads.length with old | rfl | later
  · simp [List.getElem?_append_left old]
  · simp
  · rw [List.getElem?_eq_none (by simp; omega), List.getElem?_eq_none (by omega)]

/-- A load that comes changes no report. -/
theorem load_reported (lib : Libp2p) (q : Request) (turn : Turn) (s : Serving) (i : Nat) :
    reported i (load lib q turn s).state = reported i s.state := by
  cases load_goes lib q turn s with
  | stops loads | on _ loads | waits _ loads =>
    rw [reported_congr loads]
    exact reported_new s.state q i
  | reports c own => cases own

/-- A step reports one load at most, and only one that has not been reported. -/
theorem step_reported {l : Label Ec Turn (Request × Turn)} (hs : AtMost s) (h : (machine lib).step s l = some t) :
    (∀ i, reported i t.state = reported i s.state) ∨
    ∃ i c, reported i s.state = [] ∧ reported i t.state = [c] ∧
      ∀ j, j ≠ i → reported j t.state = reported j s.state := by
  rcases Machine.step_cases h with ⟨k, e, x, _, hk, ends, rfl⟩ | ⟨k, o, x, e, rest, _, hk, hr⟩ | ⟨a, _, ha⟩
  · exact .inl fun _ => rfl
  · cases run_goes hr with
    | stops loads | on _ loads | waits _ loads => exact .inl (reported_congr loads)
    | reports c own eq =>
      have owed : owes x.load ⟨x, some e⟩ = true := by
        rw [own]
        simp [Handler.load]
      have bound := hs x.load
      have count := takeAt_countP (owes x.load) hk
      rw [owed, if_pos rfl] at count
      have fresh : delivered x.load s.state = 0 := by
        simp only [Loop.balance] at bound
        omega
      obtain ⟨load, known⟩ := known_of_undelivered fresh
      have none : load.delivered = [] := by
        rw [delivered, known] at fresh
        exact List.length_eq_zero_iff.mp fresh
      refine .inr ⟨x.load, c, ?_, ?_, fun j other => ?_⟩
      · rw [reported, known]
        exact none
      · rw [eq, reported]
        simp [handleRead, known, none]
      · rw [eq, reported, reported]
        simp [handleRead, Ne.symm other]
  · obtain rfl := Option.some.inj ha
    exact .inl (load_reported lib a.1 a.2 s)

/-- A load stays what it was asked for. -/
theorem step_requested {l : Label Ec Turn (Request × Turn)} (h : (machine lib).step s l = some t) {i : Nat}
    {q : Request} (known : requested s.state i = some q) : requested t.state i = some q := by
  have kept {x : Handler} {u : Serving} (goes : Goes x u t) (known : requested u.state i = some q) :
      requested t.state i = some q := by
    cases goes with
    | stops loads | on _ loads | waits _ loads =>
      rw [requested, loads]
      exact known
    | reports c own eq =>
      rw [eq, requested, handleRead_requests]
      exact known
  rcases Machine.step_cases h with ⟨k, e, x, _, hk, ends, rfl⟩ | ⟨k, o, x, e, rest, _, hk, hr⟩ | ⟨a, _, ha⟩
  · exact known
  · exact kept (run_goes hr) known
  · obtain rfl := Option.some.inj ha
    exact kept (load_goes lib a.1 a.2 s) (requested_new _ _ known)

theorem load_requested (lib : Libp2p) (q : Request) (turn : Turn) (s : Serving) :
    requested (load lib q turn s).state s.state.loads.length = some q := by
  have new : requested (coming q s).state s.state.loads.length = some q := by simp [requested, coming]
  cases load_goes lib q turn s with
  | stops loads | on _ loads | waits _ loads =>
    rw [requested, loads]
    exact new
  | reports c own => cases own

end IPFSDevice

end AsyncIOManager
