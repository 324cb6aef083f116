import AsyncIOManager.EventLoop
import AsyncIOManager.Runs

namespace Reactor

universe u

variable {σ κ ε ω α : Type u}

/-- The handlers in the pool meet `A`, which may look at the state, and the state meets `B`. -/
structure Carries (A : σ → κ → Prop) (B : σ → Prop) (s : Loop σ κ ε) : Prop where
  pool : ∀ x ∈ s.pool, A s.state x.handler
  state : B s.state

namespace Carries

variable {A : σ → κ → Prop} {B : σ → Prop} {s : Loop σ κ ε}

theorem start (h : Carries A B s) {k : κ} (own : A s.state k) : Carries A B (s.start k) := by
  refine ⟨?_, h.state⟩
  intro x hx
  rcases List.mem_append.mp hx with old | new
  · exact h.pool x old
  · rw [List.mem_singleton.mp new]
    exact own

theorem post (h : Carries A B s) {k : κ} {e : ε} (own : A s.state k) : Carries A B (s.post k e) := by
  refine ⟨?_, h.state⟩
  intro x hx
  rcases List.mem_append.mp hx with old | new
  · exact h.pool x old
  · rw [List.mem_singleton.mp new]
    exact own

theorem cancel (h : Carries A B s) (p : κ → Bool) (e : ε) : Carries A B (s.cancel p e) := by
  refine ⟨?_, h.state⟩
  intro x hx
  obtain ⟨y, hy, rfl⟩ := List.mem_map.mp hx
  rw [Entry.abort_handler]
  exact h.pool y hy

theorem modify (h : Carries A B s) {f : σ → σ} (keep : ∀ k, A s.state k → A (f s.state) k)
    (state : B (f s.state)) : Carries A B (s.modify f) :=
  ⟨fun x hx => keep _ (h.pool x hx), state⟩

/-- A run keeps what every handler and every call that meet the condition keep. -/
theorem reaches_where {m : Machine σ κ ε ω α} {C : Loop σ κ ε → Label ε ω α → Prop}
    (run : ∀ u k o x e rest v, C u (.run k o) → takeAt u.pool k = some (⟨x, some e⟩, rest) → A u.state x →
      Carries A B { u with pool := rest } → m.run x e o { u with pool := rest } = some v → Carries A B v)
    (call : ∀ u a v, C u (.call a) → Carries A B u → m.call a u = some v → Carries A B v) {t : Loop σ κ ε}
    (reach : Reaches m.step C s t) (h : Carries A B s) : Carries A B t := by
  refine reach.invariant ?_ h
  intro u l v hu hc step
  rcases Machine.step_cases step with ⟨k, e, x, rfl, hk, _, rfl⟩ | ⟨k, o, x, e, rest, rfl, hk, hr⟩ | ⟨a, rfl, ha⟩
  · refine ⟨?_, hu.state⟩
    intro y hy
    rcases List.mem_or_eq_of_mem_set hy with old | rfl
    · exact hu.pool y old
    · exact hu.pool ⟨x, none⟩ (List.mem_of_getElem? hk)
  · have left : Carries A B { u with pool := rest } := ⟨fun y hy => hu.pool y (takeAt_rest_mem hk hy), hu.state⟩
    exact run u k o x e rest v hc hk (hu.pool _ (takeAt_mem hk)) left hr
  · exact call u a v hc hu ha

/-- A run keeps what every handler and every call keep. -/
theorem reaches {m : Machine σ κ ε ω α} {C : Loop σ κ ε → Label ε ω α → Prop}
    (run : ∀ k e o s t, A s.state k → Carries A B s → m.run k e o s = some t → Carries A B t)
    (call : ∀ a s t, Carries A B s → m.call a s = some t → Carries A B t) {t : Loop σ κ ε}
    (reach : Reaches m.step C s t) (h : Carries A B s) : Carries A B t :=
  reaches_where (m := m) (C := C)
    (fun u _ o x e rest v _ _ own left hr => run x e o { u with pool := rest } v own left hr)
    (fun u a v _ hu ha => call a u v hu ha) reach h

end Carries

end Reactor
