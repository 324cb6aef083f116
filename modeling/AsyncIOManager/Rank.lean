import AsyncIOManager.EventLoop

namespace Reactor

universe u

variable {σ κ ε ω α : Type u}

theorem sum_map_set {β : Type u} {w : β → Nat} {l : List β} {k : Nat} {x y : β} (hk : l[k]? = some x) :
    ((l.set k y).map w).sum + w x = (l.map w).sum + w y := by
  induction l generalizing k with
  | nil => cases hk
  | cons z l ih =>
    cases k with
    | zero =>
      cases Option.some.inj hk
      simp only [List.set_cons_zero, List.map_cons, List.sum_cons]
      omega
    | succ k =>
      have rest := ih hk
      simp only [List.set_cons_succ, List.map_cons, List.sum_cons]
      omega

/-- What the entries of the pool weigh together. -/
def Loop.weight (w : Entry κ ε → Nat) (s : Loop σ κ ε) : Nat := (s.pool.map w).sum

section Weight

variable {w : Entry κ ε → Nat}

@[simp] theorem Loop.weight_start (s : Loop σ κ ε) (h : κ) :
    (s.start h).weight w = s.weight w + w ⟨h, none⟩ := by
  simp [weight]

@[simp] theorem Loop.weight_post (s : Loop σ κ ε) (h : κ) (e : ε) :
    (s.post h e).weight w = s.weight w + w ⟨h, some e⟩ := by
  simp [weight]

@[simp] theorem Loop.weight_modify (s : Loop σ κ ε) (f : σ → σ) : (s.modify f).weight w = s.weight w := rfl

/-- An operation that is cancelled weighs no more than before. -/
theorem Loop.weight_cancel (lighter : ∀ h e, w ⟨h, some e⟩ ≤ w ⟨h, none⟩) (s : Loop σ κ ε)
    (p : κ → Bool) (e : ε) : (s.cancel p e).weight w ≤ s.weight w := by
  rw [weight, cancel_pool, List.map_map, weight]
  apply List.sum_le_sum
  intro x _
  change w (x.abort p e) ≤ w x
  unfold Entry.abort
  split
  next aborted =>
    obtain ⟨h, o⟩ := x
    obtain rfl : o = none := by simpa using aborted.2
    exact lighter h e
  next => exact Nat.le_refl _

theorem weight_takeAt {pool rest : List (Entry κ ε)} {k : Nat} {x : Entry κ ε}
    (hk : takeAt pool k = some (x, rest)) : (pool.map w).sum = w x + (rest.map w).sum := by
  rw [((takeAt_perm hk).map w).sum_eq, List.map_cons, List.sum_cons]

/-- A step lowers the weight when an operation is lighter once it has finished, and what a
handler starts is lighter than the handler. -/
theorem Machine.step_lowers {m : Machine σ κ ε ω α} {s t : Loop σ κ ε} {l : Label ε ω α}
    (finish : ∀ h e, w ⟨h, some e⟩ < w ⟨h, none⟩)
    (run : ∀ h e o u v, m.run h e o u = some v → v.weight w < u.weight w + w ⟨h, some e⟩)
    (call : ∀ a, l ≠ .call a) (h : m.step s l = some t) : t.weight w < s.weight w := by
  rcases Machine.step_cases h with ⟨k, e, x, _, hk, _, rfl⟩ | ⟨k, o, x, e, rest, _, hk, hr⟩ | ⟨a, hl, _⟩
  · have sum := sum_map_set (w := w) (y := ⟨x, some e⟩) hk
    have lighter := finish x e
    simp only [Loop.weight]
    omega
  · have sum := weight_takeAt (w := w) hk
    have lighter := run x e o _ t hr
    simp only [Loop.weight] at lighter ⊢
    omega
  · exact absurd hl (call a)

end Weight

/-- A run is no longer than the rank it starts with, what its states have gained and what its labels
are credited with, when each step pays for itself out of these. -/
theorem exec_length_le_gain {τ : Type u} {ℓ : Type u} {step : τ → ℓ → Option τ} (I : τ → Prop)
    (rank gain : τ → Nat) (credit : ℓ → Nat) (keep : ∀ s l t, I s → step s l = some t → I t)
    (pay : ∀ s l t, I s → step s l = some t → rank t + gain s < rank s + gain t + credit l)
    {ls : List ℓ} {s t : τ} (start : I s) (h : exec step s ls = some t) :
    ls.length + rank t + gain s ≤ rank s + gain t + (ls.map credit).sum := by
  induction ls generalizing s with
  | nil =>
    cases Option.some.inj h
    simp
  | cons l ls ih =>
    obtain ⟨u, hu, h⟩ := Option.bind_eq_some_iff.mp h
    have first := pay s l u start hu
    have rest := ih (keep s l u start hu) h
    rw [List.length_cons, List.map_cons, List.sum_cons]
    omega

/-- A run whose steps each lower a rank is no longer than the rank it starts with. -/
theorem exec_length_le {τ : Type u} {ℓ : Type u} {step : τ → ℓ → Option τ} {rank : τ → Nat}
    (lower : ∀ s l t, step s l = some t → rank t < rank s) {ls : List ℓ} {s t : τ}
    (h : exec step s ls = some t) : ls.length + rank t ≤ rank s := by
  have bound := exec_length_le_gain (fun _ => True) rank (fun _ => 0) (fun _ => 0)
    (fun _ _ _ _ _ => trivial) (fun s l t _ step => lower s l t step) trivial h
  simpa using bound

end Reactor
