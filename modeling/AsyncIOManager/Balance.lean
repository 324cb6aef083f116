import AsyncIOManager.EventLoop

namespace Reactor

universe u

variable {σ κ ε ω α : Type u}

/-- Completions owed by the pool, counted by `p`, plus those the state counts as settled. -/
def Loop.balance (p : Entry κ ε → Bool) (d : σ → Nat) (s : Loop σ κ ε) : Nat :=
  s.pool.countP p + d s.state

theorem Loop.balance_start (p : Entry κ ε → Bool) (d : σ → Nat) (s : Loop σ κ ε) (h : κ) :
    (s.start h).balance p d = s.balance p d + if p ⟨h, none⟩ then 1 else 0 := by
  simp only [balance, start_pool, start_state, List.countP_append, List.countP_singleton]
  omega

theorem countP_map_abort {p : Entry κ ε → Bool} {c : κ → Bool} {e : ε}
    (same : ∀ h, c h = true → p ⟨h, some e⟩ = p ⟨h, none⟩) (pool : List (Entry κ ε)) :
    (pool.map (Entry.abort c e)).countP p = pool.countP p := by
  rw [List.countP_map]
  apply List.countP_congr
  rintro ⟨h, o⟩ _
  simp only [Function.comp, Entry.abort]
  split
  next hc =>
    obtain rfl : o = none := by simpa using hc.2
    rw [same h hc.1]
  next => rfl

theorem Loop.balance_cancel {p : Entry κ ε → Bool} {c : κ → Bool} {e : ε}
    (same : ∀ h, c h = true → p ⟨h, some e⟩ = p ⟨h, none⟩) (d : σ → Nat) (s : Loop σ κ ε) :
    (s.cancel c e).balance p d = s.balance p d := by
  simp only [balance, cancel_pool, cancel_state, countP_map_abort same]

theorem countP_set_outcome {p : Entry κ ε → Bool} {pool : List (Entry κ ε)} {k : Nat} {h : κ} {e : ε}
    (at_k : pool[k]? = some ⟨h, none⟩) (same : p ⟨h, some e⟩ = p ⟨h, none⟩) :
    (pool.set k ⟨h, some e⟩).countP p = pool.countP p := by
  obtain ⟨hk, hv⟩ := List.getElem?_eq_some_iff.mp at_k
  have mem : p pool[k] = true → 0 < pool.countP p :=
    fun hp => List.countP_pos_iff.mpr ⟨pool[k], List.getElem_mem hk, hp⟩
  rw [List.countP_set hk, same, ← hv]
  split
  next hp => have := mem hp; omega
  next => rfl

theorem countP_modify {β : Type u} {l : List β} {i : Nat} {o : β} (at_i : l[i]? = some o)
    (f : β → β) (p : β → Bool) :
    (l.modify i f).countP p + (if p o then 1 else 0) = l.countP p + if p (f o) then 1 else 0 := by
  obtain ⟨hi, hv⟩ := List.getElem?_eq_some_iff.mp at_i
  have pos : p l[i] = true → 0 < l.countP p :=
    fun hp => List.countP_pos_iff.mpr ⟨l[i], List.getElem_mem hi, hp⟩
  rw [List.modify_eq_set_getElem?, at_i]
  change (l.set i (f o)).countP p + _ = _
  rw [List.countP_set hi, hv]
  rw [hv] at pos
  by_cases ho : p o = true
  · have := pos ho
    simp only [ho, if_true]
    omega
  · simp only [ho, Bool.false_eq_true, if_false]
    omega

theorem modify_concat_length {β : Type u} (l : List β) (b : β) (f : β → β) :
    (l ++ [b]).modify l.length f = l ++ [f b] := by
  induction l with
  | nil => rfl
  | cons x xs ih => simp [ih]

/-- A step keeps the balance when finishing an operation does not change what
its entry owes, and every handler passes on or settles exactly what it owed. -/
theorem Machine.step_balance {m : Machine σ κ ε ω α} {s t : Loop σ κ ε} {l : Label ε ω α}
    {p : Entry κ ε → Bool} {d : σ → Nat}
    (finish : ∀ h e, m.completes h e = true → p ⟨h, some e⟩ = p ⟨h, none⟩)
    (run : ∀ k o h e rest, l = .run k o → takeAt s.pool k = some (⟨h, some e⟩, rest) →
      m.run h e o { s with pool := rest } = some t →
      t.balance p d = ({ s with pool := rest } : Loop σ κ ε).balance p d +
        if p ⟨h, some e⟩ then 1 else 0)
    (call : ∀ a, l = .call a → m.call a s = some t → t.balance p d = s.balance p d)
    (h : m.step s l = some t) : t.balance p d = s.balance p d := by
  rcases Machine.step_cases h with ⟨k, e, x, _, hk, hc, rfl⟩ | ⟨k, o, x, e, rest, hl, hk, hr⟩ | ⟨a, hl, hr⟩
  · simp only [Loop.balance, countP_set_outcome hk (finish x e hc)]
  · rw [run k o x e rest hl hk hr]
    have count := takeAt_countP p hk
    simp only [Loop.balance]
    omega
  · exact call a hl hr

section ExactlyOnce

variable {p : Entry κ ε → Bool} {d : σ → Nat} {s : Loop σ κ ε}

theorem Loop.settled_le_one (h : s.balance p d = 1) : d s.state ≤ 1 := by
  unfold balance at h
  omega

theorem Loop.settled_of_idle (h : s.balance p d = 1) (idle : ∀ x ∈ s.pool, p x = false) :
    d s.state = 1 := by
  have none : s.pool.countP p = 0 := List.countP_eq_zero.mpr fun x hx => by simp [idle x hx]
  unfold balance at h
  omega

theorem Loop.owed_of_unsettled (h : s.balance p d = 1) (unsettled : d s.state = 0) :
    s.pool.countP p = 1 := by
  unfold balance at h
  omega

/-- When a completion that is owed is taken, no other is owed and none is settled. -/
theorem Loop.alone {k : Nat} {x : Entry κ ε} {rest : List (Entry κ ε)} (h : s.balance p d = 1)
    (hk : takeAt s.pool k = some (x, rest)) (own : p x = true) :
    (∀ y ∈ rest, p y = false) ∧ d s.state = 0 := by
  have count := takeAt_countP p hk
  rw [own, if_pos rfl] at count
  unfold balance at h
  have none : rest.countP p = 0 := by omega
  refine ⟨fun y hy => ?_, by omega⟩
  simpa using List.countP_eq_zero.mp none y hy

/-- Two completions that are owed are one entry. -/
theorem Loop.owed_eq {x y : Entry κ ε} (h : s.balance p d = 1) (hx : x ∈ s.pool) (hy : y ∈ s.pool)
    (own : p x = true) (owed : p y = true) : x = y := by
  obtain ⟨k, rest, hk⟩ := takeAt_of_mem hx
  by_contra other
  have left := (Loop.alone h hk own).1 y (takeAt_keeps hk hy (Ne.symm other))
  rw [owed] at left
  cases left

end ExactlyOnce

end Reactor
