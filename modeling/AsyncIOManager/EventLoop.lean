import AsyncIOManager.Runs
import Mathlib

namespace Reactor

universe u

variable {σ κ ε ω α : Type u}

/-- A started operation: its handler, and the outcome once it has finished. -/
structure Entry (κ ε : Type u) where
  handler : κ
  outcome : Option ε
deriving DecidableEq, Repr

/-- What an event loop holds between two handlers. -/
structure Loop (σ κ ε : Type u) where
  state : σ
  pool : List (Entry κ ε)
deriving DecidableEq, Repr

inductive Label (ε ω α : Type u)
  | finish (k : Nat) (e : ε)
  | run (k : Nat) (o : ω)
  | call (a : α)
deriving DecidableEq, Repr

/-- Handlers of a program: which outcomes its operations have, what a handler
does once it is taken out of the pool, and what calls from outside do. -/
structure Machine (σ κ ε ω α : Type u) where
  completes : κ → ε → Bool
  run : κ → ε → ω → Loop σ κ ε → Option (Loop σ κ ε)
  call : α → Loop σ κ ε → Option (Loop σ κ ε)

theorem set_cases {β : Type u} {l : List β} {i j : Nat} {a b : β} (h : (l.set i a)[j]? = some b) :
    (j = i ∧ b = a) ∨ (j ≠ i ∧ l[j]? = some b) := by
  rw [List.getElem?_set] at h
  split at h
  next own =>
    split at h
    next => exact .inl ⟨own.symm, (Option.some.inj h).symm⟩
    next => cases h
  next other => exact .inr ⟨fun same => other same.symm, h⟩

theorem concat_cases {β : Type u} {l : List β} {i : Nat} {a b : β} (h : (l ++ [a])[i]? = some b) :
    l[i]? = some b ∨ b = a := by
  rcases Nat.lt_or_ge i l.length with before | after
  · rw [List.getElem?_append_left before] at h
    exact .inl h
  · rw [List.getElem?_append_right after] at h
    exact .inr (List.mem_singleton.mp (List.mem_of_getElem? h))

def takeAt (pool : List κ) (k : Nat) : Option (κ × List κ) :=
  pool[k]?.map fun h => (h, pool.eraseIdx k)

def Machine.step (m : Machine σ κ ε ω α) (s : Loop σ κ ε) : Label ε ω α → Option (Loop σ κ ε)
  | .finish k e =>
    match s.pool[k]? with
    | some ⟨h, none⟩ =>
      if m.completes h e then some { s with pool := s.pool.set k ⟨h, some e⟩ } else none
    | _ => none
  | .run k o =>
    match takeAt s.pool k with
    | some (⟨h, some e⟩, rest) => m.run h e o { s with pool := rest }
    | _ => none
  | .call a => m.call a s

/-- Start an operation. -/
def Loop.start (s : Loop σ κ ε) (h : κ) : Loop σ κ ε :=
  { s with pool := s.pool ++ [⟨h, none⟩] }

/-- Queue a handler that needs nothing more to happen. -/
def Loop.post (s : Loop σ κ ε) (h : κ) (e : ε) : Loop σ κ ε :=
  { s with pool := s.pool ++ [⟨h, some e⟩] }

def Loop.modify (f : σ → σ) (s : Loop σ κ ε) : Loop σ κ ε := { s with state := f s.state }

def Entry.abort (p : κ → Bool) (e : ε) (x : Entry κ ε) : Entry κ ε :=
  if p x.handler ∧ x.outcome.isNone then { x with outcome := some e } else x

/-- Finish every operation in progress that meets `p` with the outcome `e`.
Handlers that are queued already keep their outcome. -/
def Loop.cancel (s : Loop σ κ ε) (p : κ → Bool) (e : ε) : Loop σ κ ε :=
  { s with pool := s.pool.map (Entry.abort p e) }

@[simp] theorem Loop.start_state (s : Loop σ κ ε) (h : κ) : (s.start h).state = s.state := rfl
@[simp] theorem Loop.post_state (s : Loop σ κ ε) (h : κ) (e : ε) : (s.post h e).state = s.state := rfl
@[simp] theorem Loop.cancel_state (s : Loop σ κ ε) (p : κ → Bool) (e : ε) :
    (s.cancel p e).state = s.state := rfl
@[simp] theorem Loop.modify_state (f : σ → σ) (s : Loop σ κ ε) : (s.modify f).state = f s.state := rfl
@[simp] theorem Loop.modify_pool (f : σ → σ) (s : Loop σ κ ε) : (s.modify f).pool = s.pool := rfl
@[simp] theorem Loop.start_pool (s : Loop σ κ ε) (h : κ) :
    (s.start h).pool = s.pool ++ [⟨h, none⟩] := rfl
@[simp] theorem Loop.post_pool (s : Loop σ κ ε) (h : κ) (e : ε) :
    (s.post h e).pool = s.pool ++ [⟨h, some e⟩] := rfl
@[simp] theorem Loop.cancel_pool (s : Loop σ κ ε) (p : κ → Bool) (e : ε) :
    (s.cancel p e).pool = s.pool.map (Entry.abort p e) := rfl

@[simp] theorem Entry.abort_handler (p : κ → Bool) (e : ε) (x : Entry κ ε) :
    (x.abort p e).handler = x.handler := by
  unfold Entry.abort
  split <;> rfl

theorem takeAt_perm {pool rest : List κ} {k : Nat} {h : κ}
    (e : takeAt pool k = some (h, rest)) : pool.Perm (h :: rest) := by
  obtain ⟨x, hx, he⟩ := Option.map_eq_some_iff.mp e
  obtain ⟨rfl, rfl⟩ := Prod.mk.inj he
  obtain ⟨hk, rfl⟩ := List.getElem?_eq_some_iff.mp hx
  exact (List.getElem_cons_eraseIdx_perm hk).symm

theorem takeAt_getElem {pool rest : List κ} {k : Nat} {h : κ}
    (e : takeAt pool k = some (h, rest)) : pool[k]? = some h := by
  obtain ⟨x, hx, he⟩ := Option.map_eq_some_iff.mp e
  rw [hx, (Prod.mk.inj he).1]

theorem takeAt_mem {pool rest : List κ} {k : Nat} {h : κ}
    (e : takeAt pool k = some (h, rest)) : h ∈ pool :=
  (takeAt_perm e).mem_iff.mpr (by simp)

theorem takeAt_rest_mem {pool rest : List κ} {k : Nat} {h x : κ}
    (e : takeAt pool k = some (h, rest)) (hx : x ∈ rest) : x ∈ pool :=
  (takeAt_perm e).mem_iff.mpr (List.mem_cons_of_mem h hx)

theorem takeAt_of_mem {pool : List κ} {h : κ} (mem : h ∈ pool) :
    ∃ k rest, takeAt pool k = some (h, rest) := by
  obtain ⟨k, hk⟩ := List.mem_iff_getElem?.mp mem
  exact ⟨k, pool.eraseIdx k, by simp [takeAt, hk]⟩

theorem takeAt_keeps {pool rest : List κ} {k : Nat} {h x : κ}
    (e : takeAt pool k = some (h, rest)) (hx : x ∈ pool) (ne : x ≠ h) : x ∈ rest :=
  (List.mem_cons.mp ((takeAt_perm e).mem_iff.mp hx)).resolve_left ne

theorem takeAt_countP {pool rest : List κ} {k : Nat} {h : κ} (p : κ → Bool)
    (e : takeAt pool k = some (h, rest)) :
    pool.countP p = rest.countP p + if p h then 1 else 0 := by
  rw [(takeAt_perm e).countP_eq p, List.countP_cons]

/-- Every step finishes an operation, runs a handler or is a call from outside. -/
theorem Machine.step_cases {m : Machine σ κ ε ω α} {s t : Loop σ κ ε} {l : Label ε ω α}
    (h : m.step s l = some t) :
    (∃ k e x, l = .finish k e ∧ s.pool[k]? = some ⟨x, none⟩ ∧ m.completes x e = true ∧
      t = { s with pool := s.pool.set k ⟨x, some e⟩ }) ∨
    (∃ k o x e rest, l = .run k o ∧ takeAt s.pool k = some (⟨x, some e⟩, rest) ∧
      m.run x e o { s with pool := rest } = some t) ∨
    (∃ a, l = .call a ∧ m.call a s = some t) := by
  cases l with
  | finish k e =>
    simp only [Machine.step] at h
    split at h
    next x hx =>
      split at h
      next hc => exact .inl ⟨k, e, x, rfl, hx, hc, (Option.some.inj h).symm⟩
      next => simp at h
    next => simp at h
  | run k o =>
    simp only [Machine.step] at h
    split at h
    next x e rest hx => exact .inr (.inl ⟨k, o, x, e, rest, rfl, hx, h⟩)
    next => simp at h
  | call a => exact .inr (.inr ⟨a, rfl, h⟩)

end Reactor
