import Mathlib

namespace Reactor

universe u v w

variable {σ : Type u} {ℓ : Type v}

/-- States reached from `s` by steps that each meet `C` in the state before them. -/
inductive Reaches (step : σ → ℓ → Option σ) (C : σ → ℓ → Prop) (s : σ) : σ → Prop
  | start : Reaches step C s s
  | next {t u : σ} {l : ℓ} : Reaches step C s t → C t l → step t l = some u → Reaches step C s u

/-- The condition every step meets. -/
def Free : σ → ℓ → Prop := fun _ _ => True

/-- The state after the steps `ls`, when each of them can be taken. -/
def exec (step : σ → ℓ → Option σ) : σ → List ℓ → Option σ
  | s, [] => some s
  | s, l :: ls => (step s l).bind fun t => exec step t ls

theorem Reaches.invariant {step : σ → ℓ → Option σ} {C : σ → ℓ → Prop} {P : σ → Prop} {s t : σ}
    (keep : ∀ t l u, P t → C t l → step t l = some u → P u)
    (h : Reaches step C s t) (hs : P s) : P t := by
  induction h with
  | start => exact hs
  | next _ hc hstep ih => exact keep _ _ _ ih hc hstep

theorem Reaches.mono {step : σ → ℓ → Option σ} {C D : σ → ℓ → Prop} {s t : σ}
    (weaker : ∀ t l, C t l → D t l) (h : Reaches step C s t) : Reaches step D s t := by
  induction h with
  | start => exact .start
  | next _ hc hstep ih => exact .next ih (weaker _ _ hc) hstep

theorem Reaches.trans {step : σ → ℓ → Option σ} {C : σ → ℓ → Prop} {s t u : σ}
    (first : Reaches step C s t) (second : Reaches step C t u) : Reaches step C s u := by
  induction second with
  | start => exact first
  | next _ hc hstep ih => exact .next ih hc hstep

theorem Reaches.one {step : σ → ℓ → Option σ} {C : σ → ℓ → Prop} {s t : σ} {l : ℓ}
    (hc : C s l) (h : step s l = some t) : Reaches step C s t :=
  .next .start hc h

theorem reaches_of_exec {step : σ → ℓ → Option σ} {ls : List ℓ} {s t : σ}
    (h : exec step s ls = some t) : Reaches step Free s t := by
  induction ls generalizing s with
  | nil =>
    cases Option.some.inj h
    exact .start
  | cons l ls ih =>
    obtain ⟨u, hu, h⟩ := Option.bind_eq_some_iff.mp h
    exact (Reaches.one trivial hu).trans (ih h)

/-- Take only steps that meet `C`. -/
def guarded (step : σ → ℓ → Option σ) (C : σ → ℓ → Prop) [∀ s l, Decidable (C s l)] :
    σ → ℓ → Option σ :=
  fun s l => if C s l then step s l else none

theorem reaches_of_guarded {step : σ → ℓ → Option σ} {C : σ → ℓ → Prop}
    [∀ s l, Decidable (C s l)] {ls : List ℓ} {s t : σ}
    (h : exec (guarded step C) s ls = some t) : Reaches step C s t := by
  induction ls generalizing s with
  | nil =>
    cases Option.some.inj h
    exact .start
  | cons l ls ih =>
    obtain ⟨u, hu, h⟩ := Option.bind_eq_some_iff.mp h
    unfold guarded at hu
    split at hu
    next hc => exact (Reaches.one hc hu).trans (ih h)
    next => simp at hu

theorem reaches_of_any_guarded (step : σ → ℓ → Option σ) (C : σ → ℓ → Prop)
    [∀ s l, Decidable (C s l)] (s : σ) (ls : List ℓ) (p : σ → Bool)
    (h : (exec (guarded step C) s ls).any p = true) : ∃ t, Reaches step C s t ∧ p t = true := by
  cases ht : exec (guarded step C) s ls with
  | none => simp [ht] at h
  | some t => exact ⟨t, reaches_of_guarded ht, by simpa [ht] using h⟩

theorem reaches_of_any (step : σ → ℓ → Option σ) (s : σ) (ls : List ℓ) (p : σ → Bool)
    (h : (exec step s ls).any p = true) : ∃ t, Reaches step Free s t ∧ p t = true := by
  cases ht : exec step s ls with
  | none => simp [ht] at h
  | some t => exact ⟨t, reaches_of_exec ht, by simpa [ht] using h⟩

theorem exec_append (step : σ → ℓ → Option σ) (s : σ) (ls ms : List ℓ) :
    exec step s (ls ++ ms) = (exec step s ls).bind fun t => exec step t ms := by
  induction ls generalizing s with
  | nil => rfl
  | cons l ls ih =>
    cases h : step s l with
    | none => simp [exec, h]
    | some t => simp [exec, h, ih]

theorem exec_concat {step : σ → ℓ → Option σ} {s t : σ} {ls : List ℓ} (h : exec step s ls = some t)
    (l : ℓ) : exec step s (ls ++ [l]) = step t l := by
  rw [exec_append, h]
  simp [exec]

/-- Before a label of a run there is a state, and the label is a step from it. -/
theorem exec_split {step : σ → ℓ → Option σ} {s u : σ} {ls ms : List ℓ} {l : ℓ}
    (h : exec step s (ls ++ l :: ms) = some u) :
    ∃ t v, exec step s ls = some t ∧ step t l = some v := by
  rw [exec_append] at h
  obtain ⟨t, ht, h⟩ := Option.bind_eq_some_iff.mp h
  obtain ⟨v, hv, _⟩ := Option.bind_eq_some_iff.mp h
  exact ⟨t, v, ht, hv⟩

/-- What a run can say about the labels it has taken. -/
theorem exec_history {step : σ → ℓ → Option σ} {s : σ} {I : List ℓ → σ → Prop} (start : I [] s)
    (keep : ∀ ls t l u, I ls t → step t l = some u → I (ls ++ [l]) u) {ls : List ℓ} {t : σ}
    (h : exec step s ls = some t) : I ls t := by
  induction ls using List.reverseRecOn generalizing t with
  | nil =>
    cases Option.some.inj h
    exact start
  | append_singleton ls l ih =>
    obtain ⟨u, v, hu, hv⟩ := exec_split h
    rw [exec_concat hu] at h
    exact keep ls u l t (ih hu) h

/-- A run that ends with a property that no step can bring back has had it all along. -/
theorem exec_filter {step : σ → ℓ → Option σ} {p : σ → Bool}
    (back : ∀ s l t, step s l = some t → p t = true → p s = true) {ls : List ℓ} {s t : σ}
    (h : exec step s ls = some t) (last : p t = true) : exec (fun s l => (step s l).filter p) s ls = some t := by
  induction ls using List.reverseRecOn generalizing t with
  | nil => exact h
  | append_singleton ls l ih =>
    obtain ⟨u, v, hu, hv⟩ := exec_split h
    rw [exec_concat hu] at h
    rw [exec_concat (ih hu (back u l t h last)), h]
    simp [Option.filter, last]

theorem guarded_cases {step : σ → ℓ → Option σ} {C : σ → ℓ → Prop} [∀ s l, Decidable (C s l)] {s t : σ} {l : ℓ}
    (h : guarded step C s l = some t) : C s l ∧ step s l = some t := by
  unfold guarded at h
  split at h
  next meets => exact ⟨meets, h⟩
  next => cases h

/-- A run whose steps each stand for one step of another system, or for none, as `D` tells, is a
run of the other system at each time. -/
theorem exec_simulates {τ : Type u} {μ : Type v} {step : σ → ℓ → Option σ} {step' : τ → μ → Option τ}
    {R : σ → τ → Prop} {D : σ → ℓ → Option μ → Prop} (sim : ∀ s a l t, R s a → step s l = some t →
      ∃ (o : Option μ) (b : τ), D s l o ∧ exec step' a o.toList = some b ∧ R t b)
    {ls : List ℓ} {s t : σ} {a : τ} (start : R s a) (run : exec step s ls = some t) :
    ∃ os : List (Option μ), os.length = ls.length ∧ ∀ k, k ≤ ls.length → ∃ u b,
      exec step s (ls.take k) = some u ∧ exec step' a ((os.take k).flatMap Option.toList) = some b ∧ R u b ∧
      ∀ l o, ls[k]? = some l → os[k]? = some o → D u l o := by
  induction ls generalizing s a with
  | nil => exact ⟨[], rfl, fun k _ => ⟨s, a, by simp [exec], by simp [exec], start, by simp⟩⟩
  | cons l ls ih =>
    obtain ⟨u, first, run⟩ := Option.bind_eq_some_iff.mp run
    obtain ⟨o, b, stands, does, related⟩ := sim s a l u start first
    obtain ⟨os, length, all⟩ := ih related run
    refine ⟨o :: os, by rw [List.length_cons, List.length_cons, length], fun k short => ?_⟩
    cases k with
    | zero =>
      refine ⟨s, a, rfl, rfl, start, fun m p hm hp => ?_⟩
      obtain rfl := Option.some.inj hm
      obtain rfl := Option.some.inj hp
      exact stands
    | succ k =>
      obtain ⟨v, c, here, there, now, next⟩ := all k (Nat.le_of_succ_le_succ short)
      refine ⟨v, c, ?_, ?_, now, next⟩
      · rw [List.take_succ_cons, exec, first]
        exact here
      · rw [List.take_succ_cons, List.flatMap_cons, exec_append, does]
        exact there

/-- A property holds all along a run exactly when every step meets the condition under which it is kept. -/
theorem foldl_always_iff {step : σ → ℓ → σ} {P : σ → Prop} {C : σ → ℓ → Prop} {s : σ} (start : P s)
    (exact : ∀ t l, P t → (P (step t l) ↔ C t l)) (ls : List ℓ) :
    (∀ n, P ((ls.take n).foldl step s)) ↔ ∀ n l, ls[n]? = some l → C ((ls.take n).foldl step s) l := by
  have next (n : Nat) (l : ℓ) (h : ls[n]? = some l) :
      (ls.take (n + 1)).foldl step s = step ((ls.take n).foldl step s) l := by
    rw [List.take_add_one, h]
    simp
  constructor
  · intro holds n l h
    refine (exact _ l (holds n)).mp ?_
    rw [← next n l h]
    exact holds (n + 1)
  · intro meets n
    induction n with
    | zero => exact start
    | succ n ih =>
      cases h : ls[n]? with
      | none =>
        rw [List.take_add_one, h]
        simpa using ih
      | some l =>
        rw [next n l h]
        exact (exact _ l ih).mpr (meets n l h)

/-- A run goes on until it is idle when some step is always possible and lowers a rank. -/
theorem Reaches.ends {β : Type w} [Preorder β] [WellFoundedLT β] {step : σ → ℓ → Option σ} {C : σ → ℓ → Prop}
    {I idle : σ → Prop} (rank : σ → β) (keep : ∀ t l u, I t → C t l → step t l = some u → I u)
    (progress : ∀ t, I t → ¬ idle t → ∃ l u, C t l ∧ step t l = some u ∧ rank u < rank t)
    {s : σ} (hs : I s) : ∃ t, Reaches step C s t ∧ idle t := by
  induction hn : rank s using WellFoundedLT.induction generalizing s with
  | ind n ih =>
    by_cases done : idle s
    · exact ⟨s, .start, done⟩
    · obtain ⟨l, u, hc, hstep, lower⟩ := progress s hs done
      obtain ⟨t, reach, ht⟩ := ih (rank u) (hn ▸ lower) (keep s l u hs hc hstep) rfl
      exact ⟨t, (Reaches.one hc hstep).trans reach, ht⟩

end Reactor
