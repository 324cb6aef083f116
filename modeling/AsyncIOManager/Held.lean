import AsyncIOManager.EventLoop

namespace Reactor

universe u

variable {σ κ ε : Type u}

theorem set_split {pool : List κ} {k : Nat} {h : κ} (e : pool[k]? = some h) :
    ∃ l r, pool = l ++ h :: r ∧ ∀ g, pool.set k g = l ++ g :: r := by
  obtain ⟨hk, rfl⟩ := List.getElem?_eq_some_iff.mp e
  refine ⟨pool.take k, pool.drop (k + 1), ?_, fun g => ?_⟩
  · rw [List.getElem_cons_drop, List.take_append_drop]
  · exact List.set_eq_take_append_cons_drop.trans (if_pos hk)

theorem takeAt_split {pool rest : List κ} {k : Nat} {h : κ} (e : takeAt pool k = some (h, rest)) :
    ∃ l r, pool = l ++ h :: r ∧ rest = l ++ r := by
  obtain ⟨x, hx, he⟩ := Option.map_eq_some_iff.mp e
  obtain ⟨rfl, rfl⟩ := Prod.mk.inj he
  obtain ⟨hk, rfl⟩ := List.getElem?_eq_some_iff.mp hx
  refine ⟨pool.take k, pool.drop (k + 1), ?_, List.eraseIdx_eq_take_drop_succ ..⟩
  rw [List.getElem_cons_drop, List.take_append_drop]

theorem mem_set_of_ne {pool : List κ} {k : Nat} {g h x : κ} (hk : pool[k]? = some h) (hx : x ∈ pool)
    (other : x ≠ h) : x ∈ pool.set k g := by
  obtain ⟨l, r, hp, hset⟩ := set_split hk
  rw [hset]
  rw [hp] at hx
  simp only [List.mem_append, List.mem_cons, other, false_or] at hx ⊢
  tauto

theorem mem_set_own {pool : List κ} {k : Nat} {g h : κ} (hk : pool[k]? = some h) : g ∈ pool.set k g := by
  obtain ⟨l, r, _, hset⟩ := set_split hk
  rw [hset]
  simp

/-- The entries of the pool whose handlers meet `p`. -/
def Loop.held (p : κ → Bool) (s : Loop σ κ ε) : List (Entry κ ε) :=
  s.pool.filter fun x => p x.handler

section Held

variable {p : κ → Bool} {s : Loop σ κ ε} {k : Nat} {x y : Entry κ ε} {h : κ} {rest : List (Entry κ ε)}

@[simp] theorem Loop.held_modify (f : σ → σ) : (s.modify f).held p = s.held p := rfl

theorem Loop.held_start (h : κ) : (s.start h).held p = s.held p ++ if p h then [⟨h, none⟩] else [] := by
  by_cases own : p h = true <;> simp [held, own]

theorem Loop.held_takeAt_other (hk : takeAt s.pool k = some (x, rest)) (other : p x.handler = false) :
    ({ s with pool := rest } : Loop σ κ ε).held p = s.held p := by
  obtain ⟨l, r, hp, rfl⟩ := takeAt_split hk
  simp [held, hp, other]

/-- A handler that is taken was the only one of its kind. -/
theorem Loop.held_takeAt_own (hk : takeAt s.pool k = some (x, rest)) (own : p x.handler = true)
    (alone : (s.held p).length ≤ 1) :
    s.held p = [x] ∧ ({ s with pool := rest } : Loop σ κ ε).held p = [] := by
  obtain ⟨l, r, hp, rfl⟩ := takeAt_split hk
  simp only [held, hp, List.filter_append, List.filter_cons, own, if_true] at alone ⊢
  simp only [List.length_append, List.length_cons] at alone
  have before : l.filter (fun x => p x.handler) = [] := List.length_eq_zero_iff.mp (by omega)
  have after : r.filter (fun x => p x.handler) = [] := List.length_eq_zero_iff.mp (by omega)
  simp [before, after]

theorem Loop.held_finish_other {e : ε} (hk : s.pool[k]? = some ⟨h, none⟩) (other : p h = false) :
    ({ s with pool := s.pool.set k ⟨h, some e⟩ } : Loop σ κ ε).held p = s.held p := by
  obtain ⟨l, r, hp, hset⟩ := set_split hk
  rw [held, hset]
  simp [held, hp, other]

theorem Loop.held_finish_own {e : ε} (hk : s.pool[k]? = some ⟨h, none⟩) (own : p h = true)
    (alone : (s.held p).length ≤ 1) :
    s.held p = [⟨h, none⟩] ∧
      ({ s with pool := s.pool.set k ⟨h, some e⟩ } : Loop σ κ ε).held p = [⟨h, some e⟩] := by
  obtain ⟨l, r, hp, hset⟩ := set_split hk
  simp only [held, hset]
  simp only [held, hp, List.filter_append, List.filter_cons, own, if_true] at alone ⊢
  simp only [List.length_append, List.length_cons] at alone
  have before : l.filter (fun x => p x.handler) = [] := List.length_eq_zero_iff.mp (by omega)
  have after : r.filter (fun x => p x.handler) = [] := List.length_eq_zero_iff.mp (by omega)
  simp [before, after]

theorem Loop.held_handlers_finish {e : ε} (hk : s.pool[k]? = some ⟨h, none⟩) :
    (({ s with pool := s.pool.set k ⟨h, some e⟩ } : Loop σ κ ε).held p).map Entry.handler =
      (s.held p).map Entry.handler := by
  obtain ⟨l, r, hp, hset⟩ := set_split hk
  simp only [held, hset]
  by_cases own : p h = true <;> simp [hp, own]

end Held

end Reactor
