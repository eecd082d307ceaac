/-!
# Machine — runs of a labelled step function

A system is a step function `σ → α → Option σ`: a label carries every choice the environment makes at that step (which
goroutine moves, what the network or the clock gave it), and `none` is a step that is not enabled.  `run` follows a
list of labels.  `Along` says a property of every state a run passes, `Meets` a condition on the state before every
step it takes; the rules below turn one step lemma into a fact about whole runs.

A party of such a system is an entry of a table: new ones are appended, and a step changes one in place.
-/
namespace Ccb

/-! ## Tables -/

theorem getElem?_concat_some {α : Type} {l : List α} {n : Nat} {a b : α} (h : (l ++ [b])[n]? = some a) :
    l[n]? = some a ∨ (n = l.length ∧ a = b) := by
  rw [List.getElem?_append] at h
  split at h
  · exact Or.inl h
  · rename_i hn
    rw [List.getElem?_singleton] at h
    split at h
    · cases h; exact Or.inr ⟨by omega, rfl⟩
    · cases h

theorem getElem?_concat_left {α : Type} {l : List α} {n : Nat} {a b : α} (h : l[n]? = some a) :
    (l ++ [b])[n]? = some a := by
  rw [List.getElem?_append_left (List.getElem?_eq_some_iff.1 h).1]; exact h

theorem getElem?_modify_some {α : Type} {l : List α} {k n : Nat} {f : α → α} {a : α} (h : (l.modify k f)[n]? = some a) :
    (k = n ∧ ∃ b, l[n]? = some b ∧ a = f b) ∨ (k ≠ n ∧ l[n]? = some a) := by
  by_cases he : k = n
  · subst he
    simp only [List.getElem?_modify_eq, Option.map_eq_map, Option.map_eq_some_iff] at h
    obtain ⟨b, hb, rfl⟩ := h
    exact Or.inl ⟨rfl, b, hb, rfl⟩
  · rw [List.getElem?_modify_ne _ _ he] at h
    exact Or.inr ⟨he, h⟩

theorem getElem?_set_some {α : Type} {l : List α} {k n : Nat} {a b : α} (h : (l.set k b)[n]? = some a) :
    (k = n ∧ a = b) ∨ (k ≠ n ∧ l[n]? = some a) := by
  by_cases he : k = n
  · subst he
    obtain ⟨hlt, hget⟩ := List.getElem?_eq_some_iff.1 h
    rw [List.getElem_set_self] at hget
    exact Or.inl ⟨rfl, hget.symm⟩
  · rw [List.getElem?_set_ne he] at h
    exact Or.inr ⟨he, h⟩

/-- What the entries of a table come to. -/
def total {α : Type} (f : α → Nat) : List α → Nat
  | []     => 0
  | a :: l => f a + total f l

theorem total_concat {α : Type} (f : α → Nat) (b : α) : ∀ l : List α, total f (l ++ [b]) = total f l + f b
  | []     => by simp [total]
  | a :: l => by rw [List.cons_append, total, total_concat f b l, total, Nat.add_assoc]

theorem total_set {α : Type} (f : α → Nat) (b : α) : ∀ {l : List α} {n : Nat} {a : α}, l[n]? = some a →
    total f (l.set n b) + f a = total f l + f b
  | c :: l, 0, a, h => by
    cases h
    simp only [List.set_cons_zero, total]
    omega
  | c :: l, n + 1, a, h => by
    have ih := total_set f b (l := l) h
    simp only [List.set_cons_succ, total]
    omega

/-! ## Runs -/

namespace Machine

variable {σ τ α β : Type}

/-- The state a list of labels leads to. -/
def run (step : σ → α → Option σ) : σ → List α → Option σ
  | s, []      => some s
  | s, a :: as => (step s a).bind (fun t => run step t as)

/-- **Every state a run passes satisfies `P`**, its first one included. -/
def Along (step : σ → α → Option σ) (P : σ → Prop) : σ → List α → Prop
  | s, []      => P s
  | s, a :: as => P s ∧ ∀ t, step s a = some t → Along step P t as

/-- **Every step a run takes meets `G`**, read at the state before it. -/
def Meets (step : σ → α → Option σ) (G : σ → α → Prop) : σ → List α → Prop
  | _, []      => True
  | s, a :: as => ∀ t, step s a = some t → G s a ∧ Meets step G t as

instance decidableMeets (step : σ → α → Option σ) (G : σ → α → Prop) [∀ s a, Decidable (G s a)] :
    ∀ (as : List α) (s : σ), Decidable (Meets step G s as)
  | [], _ => .isTrue trivial
  | a :: as, s =>
    match h : step s a with
    | none   => .isTrue (fun t ht => by rw [h] at ht; cases ht)
    | some t =>
      have := decidableMeets step G as t
      decidable_of_iff (G s a ∧ Meets step G t as)
        ⟨fun hg u hu => by rw [h] at hu; cases hu; exact hg, fun hm => hm t h⟩

theorem run_cons {step : σ → α → Option σ} {s u : σ} {a : α} {as : List α} (h : run step s (a :: as) = some u) :
    ∃ t, step s a = some t ∧ run step t as = some u := by
  simpa [run, Option.bind_eq_some_iff] using h

theorem run_append (step : σ → α → Option σ) : ∀ (as bs : List α) (s : σ),
    run step s (as ++ bs) = (run step s as).bind (fun t => run step t bs)
  | [], bs, s => rfl
  | a :: as, bs, s => by
    simp only [List.cons_append, run]
    cases hs : step s a with
    | none => rfl
    | some t => exact run_append step as bs t

/-- **An invariant of the steps that meet `G` is one of the runs that meet it.** -/
theorem inv_of_meets {step : σ → α → Option σ} {G : σ → α → Prop} {I : σ → Prop}
    (hI : ∀ s a t, I s → G s a → step s a = some t → I t) :
    ∀ (as : List α) (s u : σ), I s → Meets step G s as → run step s as = some u → I u
  | [], s, u, hs, _, hr => by
    simp only [run, Option.some.injEq] at hr
    exact hr ▸ hs
  | a :: as, s, u, hs, hm, hr => by
    obtain ⟨t, ht, hr⟩ := run_cons hr
    obtain ⟨hg, hm⟩ := hm t ht
    exact inv_of_meets hI as t u (hI s a t hs hg ht) hm hr

/-- **An invariant of every step is one of every run.** -/
theorem inv_of_step {step : σ → α → Option σ} {I : σ → Prop} (hI : ∀ s a t, I s → step s a = some t → I t)
    (as : List α) (s u : σ) (hs : I s) (hr : run step s as = some u) : I u := by
  have hm : ∀ (as : List α) (s : σ), Meets step (fun _ _ => True) s as := by
    intro as
    induction as with
    | nil => intro s; trivial
    | cons a as ih => exact fun s t _ => ⟨trivial, ih t⟩
  exact inv_of_meets (fun s a t h _ ht => hI s a t h ht) as s u hs (hm as s) hr

/-- **An invariant of the steps whose labels satisfy `P` is one of the runs whose labels do.** -/
theorem inv_of_labels {step : σ → α → Option σ} {P : α → Prop} {I : σ → Prop}
    (hI : ∀ s a t, I s → P a → step s a = some t → I t) :
    ∀ (as : List α) (s u : σ), I s → (∀ a ∈ as, P a) → run step s as = some u → I u
  | [], s, u, hs, _, hr => by
    simp only [run, Option.some.injEq] at hr
    exact hr ▸ hs
  | a :: as, s, u, hs, hP, hr => by
    obtain ⟨t, ht, hr⟩ := run_cons hr
    exact inv_of_labels hI as t u (hI s a t hs (hP a List.mem_cons_self) ht)
      (fun b hb => hP b (List.mem_cons_of_mem _ hb)) hr

/-- **What an invariant and `G` give at each step holds along a run that meets `G`.** -/
theorem Meets.of_inv {step : σ → α → Option σ} {G H : σ → α → Prop} {I : σ → Prop}
    (hI : ∀ s a t, I s → G s a → step s a = some t → I t) (hH : ∀ s a t, I s → G s a → step s a = some t → H s a) :
    ∀ (as : List α) (s : σ), I s → Meets step G s as → Meets step H s as
  | [], _, _, _ => trivial
  | a :: as, s, hs, hm => by
    intro t ht
    obtain ⟨hg, hm⟩ := hm t ht
    exact ⟨hH s a t hs hg ht, Meets.of_inv hI hH as t (hI s a t hs hg ht) hm⟩

/-- A run of two parts meets `G` in both. -/
theorem Meets.of_append {step : σ → α → Option σ} {G : σ → α → Prop} :
    ∀ (as : List α) {bs : List α} {s t : σ}, Meets step G s (as ++ bs) → run step s as = some t →
      Meets step G s as ∧ Meets step G t bs
  | [], bs, s, t, hm, hr => by
    cases hr
    exact ⟨trivial, hm⟩
  | a :: as, bs, s, t, hm, hr => by
    obtain ⟨u, hu, hr⟩ := run_cons hr
    obtain ⟨hg, hm⟩ := hm u hu
    obtain ⟨h1, h2⟩ := Meets.of_append as hm hr
    refine ⟨fun v hv => ?_, h2⟩
    rw [hu] at hv
    cases hv
    exact ⟨hg, h1⟩

/-- A condition on the labels, joined to one on the steps. -/
theorem Meets.and_labels {step : σ → α → Option σ} {P : α → Prop} {G : σ → α → Prop} :
    ∀ (as : List α) (s : σ), (∀ a ∈ as, P a) → Meets step G s as → Meets step (fun s a => P a ∧ G s a) s as
  | [], _, _, _ => trivial
  | a :: as, s, hP, hm => by
    intro t ht
    obtain ⟨hg, hm⟩ := hm t ht
    exact ⟨⟨hP a List.mem_cons_self, hg⟩, Meets.and_labels as t (fun b hb => hP b (List.mem_cons_of_mem _ hb)) hm⟩

theorem Along.head {step : σ → α → Option σ} {P : σ → Prop} {s : σ} {as : List α} (h : Along step P s as) : P s := by
  cases as with
  | nil => exact h
  | cons a as => exact h.1

/-- **When one step keeps `P` exactly if it meets `G`, a run keeps `P` at every state exactly if its steps meet `G`.**
`J` is what holds of every run and the step lemma may use. -/
theorem along_iff_meets {step : σ → α → Option σ} {G : σ → α → Prop} {J P : σ → Prop}
    (hJ : ∀ s a t, J s → step s a = some t → J t)
    (hP : ∀ s a t, J s → P s → step s a = some t → (P t ↔ G s a)) :
    ∀ (as : List α) (s : σ), J s → P s → (Along step P s as ↔ Meets step G s as)
  | [], s, _, hp => by simp [Along, Meets, hp]
  | a :: as, s, hj, hp => by
    simp only [Along, Meets, hp, true_and]
    constructor
    · intro h t ht
      have hpt : P t := (h t ht).head
      exact ⟨(hP s a t hj hp ht).1 hpt, (along_iff_meets hJ hP as t (hJ s a t hj ht) hpt).1 (h t ht)⟩
    · intro h t ht
      obtain ⟨hg, hm⟩ := h t ht
      have hpt := (hP s a t hj hp ht).2 hg
      exact (along_iff_meets hJ hP as t (hJ s a t hj ht) hpt).2 hm

/-- **What one more step keeps of a run and the state it leads to holds of every run.** -/
theorem run_history {step : σ → α → Option σ} {s : σ} {P : List α → σ → Prop} (h0 : P [] s)
    (hP : ∀ as t a u, run step s as = some t → P as t → step t a = some u → P (as ++ [a]) u) {as : List α} {u : σ}
    (hr : run step s as = some u) : P as u := by
  have hfrom : ∀ (cs as : List α) (t : σ), run step s as = some t → P as t → run step t cs = some u →
      P (as ++ cs) u := by
    intro cs
    induction cs with
    | nil =>
      intro as t _ h hr
      cases hr
      rwa [List.append_nil]
    | cons a cs ih =>
      intro as t hs h hr
      obtain ⟨v, hv, hr⟩ := run_cons hr
      have hsv : run step s (as ++ [a]) = some v := by
        rw [run_append, hs]
        show (step t a).bind _ = _
        rw [hv]; rfl
      rw [List.append_cons]
      exact ih (as ++ [a]) v hsv (hP as t a v hs h hv) hr
  exact hfrom as [] s rfl h0 hr

/-- A run whose labels satisfy `P` leads from `s` to `t`. -/
def Reaches (step : σ → α → Option σ) (P : α → Prop) (s t : σ) : Prop :=
  ∃ as, (∀ a ∈ as, P a) ∧ run step s as = some t

theorem Reaches.refl (step : σ → α → Option σ) (P : α → Prop) (s : σ) : Reaches step P s s :=
  ⟨[], (fun _ h => by cases h), rfl⟩

theorem Reaches.trans {step : σ → α → Option σ} {P : α → Prop} {s t u : σ} (h : Reaches step P s t)
    (h' : Reaches step P t u) : Reaches step P s u := by
  obtain ⟨as, has, hr⟩ := h
  obtain ⟨bs, hbs, hr'⟩ := h'
  refine ⟨as ++ bs, fun a ha => ?_, ?_⟩
  · rcases List.mem_append.1 ha with ha | ha
    · exact has a ha
    · exact hbs a ha
  · rw [run_append, hr]
    exact hr'

theorem Reaches.step {step : σ → α → Option σ} {P : α → Prop} {s t u : σ} {a : α} (h : Reaches step P s t) (ha : P a)
    (hs : step t a = some u) : Reaches step P s u := by
  refine h.trans ⟨[a], fun b hb => ?_, ?_⟩
  · rw [List.mem_singleton.1 hb]; exact ha
  · show (step t a).bind _ = _
    rw [hs]; rfl

/-! ## Simulation -/

/-- What is observed along a run. -/
def trace (step : σ → α → Option σ) (obs : σ → α → List β) : σ → List α → List β
  | _, []      => []
  | s, a :: as => obs s a ++ (step s a).elim [] (fun t => trace step obs t as)

/-- **Forward simulation**: where every step keeps the two machines related, the second making the steps that are
observed of the first, the second machine runs through everything observed along a run. -/
theorem simulates {step : σ → α → Option σ} {G : σ → α → Prop} {obs : σ → α → List β} {spec : τ → β → Option τ}
    {R : σ → τ → Prop}
    (hR : ∀ s a t x, R s x → G s a → step s a = some t → ∃ y, run spec x (obs s a) = some y ∧ R t y) :
    ∀ (as : List α) (s u : σ) (x : τ), R s x → Meets step G s as → run step s as = some u →
      ∃ y, run spec x (trace step obs s as) = some y ∧ R u y
  | [], s, u, x, hs, _, hr => by
    simp only [run, Option.some.injEq] at hr
    exact ⟨x, rfl, hr ▸ hs⟩
  | a :: as, s, u, x, hs, hm, hr => by
    obtain ⟨t, ht, hr⟩ := run_cons hr
    obtain ⟨hg, hm⟩ := hm t ht
    obtain ⟨y, hy, hty⟩ := hR s a t x hs hg ht
    obtain ⟨z, hz, huz⟩ := simulates hR as t u y hty hm hr
    refine ⟨z, ?_, huz⟩
    rw [trace, ht, run_append, hy]
    exact hz

end Machine
end Ccb
