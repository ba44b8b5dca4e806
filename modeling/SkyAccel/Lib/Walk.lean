import Mathlib

/-!
# Walks and simple paths in a weighted directed graph

A walk is its list of vertices. `exists_path_le`: with non-negative weights a
walk can be cut down to a simple path that is no dearer. `finite_paths`: over
finitely many vertices there are finitely many simple paths.
-/

namespace SkyAccel.Walk

variable {V : Type}

structure IsWalk (E : V → V → Prop) (s t : V) (p : List V) : Prop where
  first : p.head? = some s
  last : p.getLast? = some t
  chain : p.IsChain E

structure IsPath (E : V → V → Prop) (s t : V) (p : List V) : Prop extends IsWalk E s t p where
  nodup : p.Nodup

/-- The sum of a weight over the consecutive pairs of a list. -/
def cost (w : V → V → ℚ) : List V → ℚ
  | a :: b :: l => w a b + cost w (b :: l)
  | _ => 0

@[simp] theorem cost_singleton (w : V → V → ℚ) (a : V) : cost w [a] = 0 := rfl

@[simp] theorem cost_cons_cons (w : V → V → ℚ) (a b : V) (l : List V) :
    cost w (a :: b :: l) = w a b + cost w (b :: l) := rfl

theorem cost_append (w : V → V → ℚ) (p q : List V) (v : V) :
    cost w (p ++ v :: q) = cost w (p ++ [v]) + cost w (v :: q) := by
  induction p with
  | nil => simp
  | cons a p ih =>
    cases p with
    | nil => simp
    | cons b p => simp only [List.cons_append, cost_cons_cons] at ih ⊢; rw [ih, add_assoc]

theorem cost_snoc (w : V → V → ℚ) (p : List V) (u v : V) (h : p.getLast? = some u) :
    cost w (p ++ [v]) = cost w p + w u v := by
  obtain ⟨p', rfl⟩ := List.getLast?_eq_some_iff.mp h
  rw [List.append_assoc, List.singleton_append, cost_append]
  simp

theorem cost_nonneg {E : V → V → Prop} {w : V → V → ℚ} (hw : ∀ a b, E a b → 0 ≤ w a b)
    {p : List V} (hp : p.IsChain E) : 0 ≤ cost w p := by
  induction p with
  | nil => exact le_refl _
  | cons a p ih =>
    cases p with
    | nil => exact le_refl _
    | cons b p =>
      rw [List.isChain_cons_cons] at hp
      exact add_nonneg (hw a b hp.1) (ih hp.2)

section
variable {E : V → V → Prop} {s t u v : V} {p q : List V}

theorem IsWalk.ne_nil (h : IsWalk E s t p) : p ≠ [] := by
  rintro rfl
  simpa using h.first

theorem IsWalk.singleton (E : V → V → Prop) (s : V) : IsWalk E s s [s] := ⟨rfl, rfl, .singleton s⟩

theorem IsPath.singleton (E : V → V → Prop) (s : V) : IsPath E s s [s] :=
  ⟨IsWalk.singleton E s, List.nodup_singleton s⟩

theorem IsWalk.cons (h : IsWalk E u t p) (hs : E s u) : IsWalk E s t (s :: p) := by
  obtain ⟨p', rfl⟩ : ∃ p', p = u :: p' := by
    cases p with
    | nil => exact absurd rfl h.ne_nil
    | cons a p => exact ⟨p, by simpa using h.first⟩
  exact ⟨rfl, by simpa using h.last, .cons_cons hs h.chain⟩

theorem IsWalk.snoc (h : IsWalk E s u p) (hv : E u v) : IsWalk E s v (p ++ [v]) := by
  refine ⟨?_, by simp, ?_⟩
  · rw [List.head?_append_of_ne_nil _ h.ne_nil]; exact h.first
  · rw [List.isChain_append]
    refine ⟨h.chain, .singleton v, ?_⟩
    intro x hx y hy
    rw [h.last] at hx
    simp only [List.head?_cons, Option.mem_def, Option.some.injEq] at hx hy
    subst hx; subst hy
    exact hv

/-- A walk through `v` is a walk to `v` followed by a walk from `v`. -/
theorem isWalk_append : IsWalk E s t (p ++ v :: q) ↔
    IsWalk E s v (p ++ [v]) ∧ IsWalk E v t (v :: q) := by
  have hf : (p ++ v :: q).head? = (p ++ [v]).head? := by cases p <;> rfl
  have hl : (p ++ v :: q).getLast? = (v :: q).getLast? :=
    List.getLast?_append_of_ne_nil p (List.cons_ne_nil v q)
  constructor
  · rintro ⟨first, last, chain⟩
    rw [List.isChain_split] at chain
    exact ⟨⟨hf ▸ first, by simp, chain.1⟩, ⟨rfl, hl ▸ last, chain.2⟩⟩
  · rintro ⟨⟨first, -, c₁⟩, ⟨-, last, c₂⟩⟩
    exact ⟨hf.trans first, hl.trans last, List.isChain_split.mpr ⟨c₁, c₂⟩⟩

theorem IsWalk.mono {F : V → V → Prop} (hEF : ∀ a b, E a b → F a b) (h : IsWalk E s t p) :
    IsWalk F s t p := ⟨h.first, h.last, h.chain.imp hEF⟩

theorem IsPath.mono {F : V → V → Prop} (hEF : ∀ a b, E a b → F a b) (h : IsPath E s t p) :
    IsPath F s t p := ⟨h.toIsWalk.mono hEF, h.nodup⟩

/-- Of two simple paths to one end, neither is a proper beginning of the other. -/
theorem IsPath.eq_of_prefix {s' : V} (hp : IsPath E s t p) (hq : IsPath E s' t q)
    (h : p <+: q) : p = q := by
  obtain ⟨u, rfl⟩ := h
  by_cases hu : u = []
  · simp [hu]
  · have last := hq.last
    rw [List.getLast?_append_of_ne_nil p hu] at last
    exact absurd rfl ((List.nodup_append.mp hq.nodup).2.2 t (List.mem_of_getLast? hp.last) t
      (List.mem_of_getLast? last))

/-- Cutting out the cycles of a walk does not make it dearer. -/
theorem exists_path_le {w : V → V → ℚ} (hw : ∀ a b, E a b → 0 ≤ w a b) (h : IsWalk E s t p) :
    ∃ q, IsPath E s t q ∧ cost w q ≤ cost w p := by
  induction p generalizing s with
  | nil => exact absurd rfl h.ne_nil
  | cons a p ih =>
    obtain rfl : a = s := by simpa using h.first
    cases p with
    | nil =>
      obtain rfl : a = t := by simpa using h.last
      exact ⟨[a], IsPath.singleton E a, le_refl _⟩
    | cons b p =>
      obtain ⟨hab, chain⟩ := List.isChain_cons_cons.mp h.chain
      have hlast : (b :: p).getLast? = some t := by simpa using h.last
      obtain ⟨q, path, le⟩ := ih ⟨rfl, hlast, chain⟩
      by_cases ha : a ∈ q
      · obtain ⟨q₁, q₂, rfl⟩ := List.append_of_mem ha
        obtain ⟨w₁, w₂⟩ := isWalk_append.mp path.toIsWalk
        refine ⟨a :: q₂, ⟨w₂, (List.nodup_append.mp path.nodup).2.1⟩, ?_⟩
        have h₁ := cost_nonneg hw w₁.chain
        have h₂ := hw a b hab
        rw [cost_append] at le
        rw [cost_cons_cons]
        linarith
      · refine ⟨a :: q, ⟨path.toIsWalk.cons hab, List.nodup_cons.mpr ⟨ha, path.nodup⟩⟩, ?_⟩
        obtain ⟨q', rfl⟩ : ∃ q', q = b :: q' := by
          cases q with
          | nil => exact absurd rfl path.ne_nil
          | cons c q => exact ⟨q, by simpa using path.first⟩
        simpa using le

theorem IsWalk.mem_targets (h : IsWalk E s t p) : ∀ x ∈ p, x = s ∨ ∃ y, E y x := by
  induction p generalizing s with
  | nil => intro x hx; cases hx
  | cons a p ih =>
    obtain rfl : a = s := by simpa using h.first
    intro x hx
    cases p with
    | nil => left; simpa using hx
    | cons b p =>
      obtain ⟨hab, chain⟩ := List.isChain_cons_cons.mp h.chain
      rcases List.mem_cons.mp hx with rfl | hx
      · exact .inl rfl
      · rcases ih ⟨rfl, by simpa using h.last, chain⟩ x hx with rfl | hy
        · exact .inr ⟨a, hab⟩
        · exact .inr hy

/-- An edge leads on from every vertex of a walk but the last. -/
theorem IsWalk.mem_sources (h : IsWalk E s t p) : ∀ x ∈ p.dropLast, ∃ y, E x y := by
  induction p generalizing s with
  | nil => intro x hx; cases hx
  | cons a p ih =>
    intro x hx
    cases p with
    | nil => cases hx
    | cons b p =>
      obtain ⟨hab, chain⟩ := List.isChain_cons_cons.mp h.chain
      rcases List.mem_cons.mp hx with rfl | hx
      · exact ⟨b, hab⟩
      · exact ih ⟨rfl, by simpa using h.last, chain⟩ x hx

theorem finite_paths {T : Set V} (hT : T.Finite) (hE : ∀ a b, E a b → b ∈ T) (s t : V) :
    {p | IsPath E s t p}.Finite := by
  classical
  have hU : (insert s T).Finite := hT.insert s
  have : Finite ↑(insert s T) := hU
  refine ((List.finite_length_le ↑(insert s T) (insert s T).ncard).image
    (List.map Subtype.val)).subset ?_
  intro p hp
  have inside : ∀ x ∈ p, x ∈ insert s T := by
    intro x hx
    rcases hp.mem_targets x hx with rfl | ⟨y, hy⟩
    · exact Set.mem_insert _ _
    · exact Set.mem_insert_of_mem _ (hE y x hy)
  refine ⟨p.attachWith _ inside, ?_, by simp⟩
  have hsub : (↑p.toFinset : Set V) ⊆ insert s T := by
    intro x hx
    exact inside x (by simpa using hx)
  have := Set.ncard_le_ncard hsub hU
  rw [Set.ncard_coe_finset, List.toFinset_card_of_nodup hp.nodup] at this
  simpa using this

end

end SkyAccel.Walk
