import Mathlib.Data.List.Forall2

/-!
# Effects over a list

`mapM` where every call succeeds: with a known value, or with the values of a
result.
-/

namespace Traverse

section

variable {m : Type → Type} [Monad m] [LawfulMonad m] {α β γ : Type}

theorem mapM_eq_pure {f : α → m β} {g : α → β} {l : List α} (h : ∀ x ∈ l, f x = pure (g x)) :
    l.mapM f = pure (l.map g) := by
  induction l with
  | nil => simp
  | cons x l ih =>
      rw [List.mapM_cons, h x List.mem_cons_self,
        ih fun y hy => h y (List.mem_cons_of_mem _ hy)]
      simp

theorem mapM_map_eq_pure {f : β → m γ} {encode : α → β} {g : α → γ} {l : List α}
    (h : ∀ x ∈ l, f (encode x) = pure (g x)) : (l.map encode).mapM f = pure (l.map g) := by
  rw [List.mapM_map]
  exact mapM_eq_pure h

end

variable {ε α β : Type}

/-- A result holds the results of the calls, in order. -/
theorem mapM_eq_some_iff {f : α → Option β} {l : List α} {r : List β} :
    l.mapM f = some r ↔ List.Forall₂ (fun x y => f x = some y) l r := by
  constructor
  · intro h
    induction l generalizing r with
    | nil =>
        obtain rfl : r = [] := (Option.some.inj h).symm
        exact .nil
    | cons x l ih =>
        rw [List.mapM_cons] at h
        obtain ⟨y, hy, h⟩ := Option.bind_eq_some_iff.mp h
        obtain ⟨ys, hys, h⟩ := Option.bind_eq_some_iff.mp h
        obtain rfl : r = y :: ys := (Option.some.inj h).symm
        exact .cons hy (ih hys)
  · intro h
    induction h with
    | nil => rfl
    | cons hx _ ih =>
        rw [List.mapM_cons, hx, ih]
        rfl

/-- The result at a position is that of the call there. -/
theorem getElem?_of_mapM_eq_some {f : α → Option β} {l : List α} {r : List β}
    (h : l.mapM f = some r) (i : ℕ) : r[i]? = l[i]?.bind f := by
  have hforall := mapM_eq_some_iff.mp h
  clear h
  induction hforall generalizing i with
  | nil => rfl
  | cons hxy _ ih =>
      cases i with
      | zero => exact hxy.symm
      | succ i => exact ih i

/-- A sequence succeeds where both its parts do. -/
theorem bind_eq_ok_iff {first : Except ε α} {next : α → Except ε β} {b : β} :
    first >>= next = .ok b ↔ ∃ a, first = .ok a ∧ next a = .ok b := by
  cases first with
  | error e => exact iff_of_false nofun nofun
  | ok a =>
      constructor
      · exact fun h => ⟨a, rfl, h⟩
      · rintro ⟨_, ⟨⟩, h⟩
        exact h

theorem mapM_eq_ok_iff {f : α → Except ε β} {l : List α} {r : List β} :
    l.mapM f = .ok r ↔ List.Forall₂ (fun x y => f x = .ok y) l r := by
  constructor
  · intro h
    induction l generalizing r with
    | nil =>
        obtain rfl : r = [] := (Except.ok.inj h).symm
        exact .nil
    | cons x l ih =>
        rw [List.mapM_cons] at h
        obtain ⟨y, hx, h⟩ := bind_eq_ok_iff.mp h
        obtain ⟨ys, hl, h⟩ := bind_eq_ok_iff.mp h
        obtain rfl : r = y :: ys := (Except.ok.inj h).symm
        exact .cons hx (ih hl)
  · intro h
    induction h with
    | nil => rfl
    | cons hx _ ih =>
        rw [List.mapM_cons, hx, ih]
        rfl

/-- A run whose steps all succeed succeeds, and what is read of its states is the fold of
what each step does to it. -/
theorem foldlM_ok {σ τ : Type} {f : σ → α → Except ε σ} {read : σ → τ} {g : τ → α → τ}
    {l : List α} (h : ∀ s, ∀ a ∈ l, ∃ s', f s a = .ok s' ∧ read s' = g (read s) a) (s : σ) :
    ∃ s', l.foldlM f s = .ok s' ∧ read s' = l.foldl g (read s) := by
  induction l generalizing s with
  | nil => exact ⟨s, rfl, rfl⟩
  | cons a l ih =>
      obtain ⟨next, hstep, hread⟩ := h s a List.mem_cons_self
      obtain ⟨last, hrun, hlast⟩ := ih (fun s b hb => h s b (List.mem_cons_of_mem _ hb)) next
      refine ⟨last, ?_, ?_⟩
      · rw [List.foldlM_cons, hstep]
        exact hrun
      · rw [hlast, hread, List.foldl_cons]

/-- What every step of a successful fold keeps holds at its end. -/
theorem foldlM_keeps {σ : Type} {f : σ → α → Except ε σ} {P : σ → Prop} {l : List α}
    (h : ∀ s a s', a ∈ l → P s → f s a = .ok s' → P s') {s s' : σ} (hs : P s)
    (hrun : l.foldlM f s = .ok s') : P s' := by
  induction l generalizing s with
  | nil => exact Except.ok.inj hrun ▸ hs
  | cons a l ih =>
      rw [List.foldlM_cons] at hrun
      obtain ⟨next, hstep, hrest⟩ := bind_eq_ok_iff.mp hrun
      exact ih (fun s b s' hb => h s b s' (List.mem_cons_of_mem _ hb))
        (h s a next List.mem_cons_self hs hstep) hrest

/-- A reader that answers less reads a sublist. -/
theorem filterMap_sublist_filterMap {f g : α → Option β} (h : ∀ x y, f x = some y → g x = some y)
    (l : List α) : (l.filterMap f).Sublist (l.filterMap g) := by
  induction l with
  | nil => exact .slnil
  | cons x l ih =>
      cases hf : f x with
      | some y =>
          rw [List.filterMap_cons_some hf, List.filterMap_cons_some (h x y hf)]
          exact ih.cons_cons y
      | none =>
          rw [List.filterMap_cons_none hf]
          cases hg : g x with
          | none => rwa [List.filterMap_cons_none hg]
          | some z =>
              rw [List.filterMap_cons_some hg]
              exact ih.cons z

theorem exists_of_mem_right {R : α → β → Prop} {l : List α} {r : List β}
    (h : List.Forall₂ R l r) {v : β} (hv : v ∈ r) : ∃ x ∈ l, R x v := by
  induction h with
  | nil => exact absurd hv List.not_mem_nil
  | @cons x u l r hxu _ ih =>
      rcases List.mem_cons.mp hv with rfl | hv
      · exact ⟨x, List.mem_cons_self, hxu⟩
      · obtain ⟨y, hy, hyv⟩ := ih hv
        exact ⟨y, List.mem_cons_of_mem _ hy, hyv⟩

theorem exists_of_mem_left {R : α → β → Prop} {l : List α} {r : List β}
    (h : List.Forall₂ R l r) {x : α} (hx : x ∈ l) : ∃ v ∈ r, R x v :=
  exists_of_mem_right h.flip hx

theorem exists_forall₂ {R : α → β → Prop} {l : List α} (h : ∀ x ∈ l, ∃ y, R x y) :
    ∃ r, List.Forall₂ R l r := by
  induction l with
  | nil => exact ⟨[], .nil⟩
  | cons x l ih =>
      obtain ⟨y, hy⟩ := h x List.mem_cons_self
      obtain ⟨r, hr⟩ := ih fun z hz => h z (List.mem_cons_of_mem _ hz)
      exact ⟨y :: r, .cons hy hr⟩

/-- What relates the elements of a list to others may use that they are in it. -/
theorem forall₂_of_mem {R S : α → β → Prop} {l : List α} {r : List β}
    (h : List.Forall₂ R l r) (himp : ∀ x ∈ l, ∀ y, R x y → S x y) : List.Forall₂ S l r := by
  induction h with
  | nil => exact .nil
  | cons hxy _ ih =>
      exact .cons (himp _ List.mem_cons_self _ hxy)
        (ih fun z hz => himp z (List.mem_cons_of_mem _ hz))

/-- Related lists have distinct keys together, if relating keeps keys apart. -/
theorem nodup_map_of_forall₂ {κ κ' : Type} {R : α → β → Prop} {key : α → κ} {key' : β → κ'}
    (hkey : ∀ x y u v, R x u → R y v → key' u = key' v → key x = key y) {l : List α} {r : List β}
    (h : List.Forall₂ R l r) (hnodup : (l.map key).Nodup) : (r.map key').Nodup := by
  induction h with
  | nil => exact List.nodup_nil
  | @cons x u l r hxu hlr ih =>
      rw [List.map_cons, List.nodup_cons] at hnodup ⊢
      refine ⟨fun hmem => hnodup.1 ?_, ih hnodup.2⟩
      obtain ⟨v, hv, heq⟩ := List.mem_map.mp hmem
      obtain ⟨y, hy, hyv⟩ := exists_of_mem_right hlr hv
      rw [hkey x y u v hxu hyv heq.symm]
      exact List.mem_map_of_mem hy

end Traverse
