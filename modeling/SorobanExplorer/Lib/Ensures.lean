import Mathlib.Logic.Basic

/-!
# Postconditions of stateful programs

What a program with state and failure leaves when it succeeds, as a relation of the
state it starts from, its value and the state it ends in; and that it succeeds.
-/

namespace StatefulProgram

variable {σ ε α β : Type}

/-- Every successful run relates its start, its value and its end. -/
def Ensures (m : StateT σ (Except ε) α) (Q : σ → α → σ → Prop) : Prop :=
  ∀ s value s', m s = .ok (value, s') → Q s value s'

theorem ensures_pure {value : α} {Q : σ → α → σ → Prop} (h : ∀ s, Q s value s) :
    Ensures (pure value : StateT σ (Except ε) α) Q := by
  intro s value' s' hrun
  obtain ⟨rfl, rfl⟩ := Prod.mk.inj (Except.ok.inj hrun)
  exact h s

/-- **Sequencing.** -/
theorem ensures_bind {m : StateT σ (Except ε) α} {next : α → StateT σ (Except ε) β}
    {P : σ → α → σ → Prop} {R : α → σ → β → σ → Prop} {Q : σ → β → σ → Prop}
    (hm : Ensures m P) (hnext : ∀ value, Ensures (next value) (R value))
    (hjoin : ∀ s value s' value' s'', P s value s' → R value s' value' s'' → Q s value' s'') :
    Ensures (m >>= next) Q := by
  intro s value' s'' hrun
  change (m s >>= fun (value, s') => next value s') = .ok (value', s'') at hrun
  cases hfirst : m s with
  | error error => rw [hfirst] at hrun; cases hrun
  | ok first =>
      obtain ⟨value, s'⟩ := first
      rw [hfirst] at hrun
      exact hjoin s value s' value' s'' (hm s value s' hfirst) (hnext value s' value' s'' hrun)

theorem Ensures.imp {m : StateT σ (Except ε) α} {P Q : σ → α → σ → Prop} (h : Ensures m P)
    (himp : ∀ s value s', P s value s' → Q s value s') : Ensures m Q :=
  fun s value s' hrun => himp s value s' (h s value s' hrun)

theorem Ensures.and {m : StateT σ (Except ε) α} {P Q : σ → α → σ → Prop} (hP : Ensures m P)
    (hQ : Ensures m Q) : Ensures m fun s value s' => P s value s' ∧ Q s value s' :=
  fun s value s' hrun => ⟨hP s value s' hrun, hQ s value s' hrun⟩

/-- A program that moves its state along a relation only. -/
theorem ensures_bind_of_trans {m : StateT σ (Except ε) α} {next : α → StateT σ (Except ε) β}
    {R : σ → σ → Prop} (htrans : ∀ {s s' s''}, R s s' → R s' s'' → R s s'')
    (hm : Ensures m fun s _ s' => R s s') (hnext : ∀ value, Ensures (next value) fun s _ s' => R s s') :
    Ensures (m >>= next) fun s _ s' => R s s' :=
  ensures_bind hm hnext fun _ _ _ _ _ h h' => htrans h h'

/-! ## Success -/

/-- The program succeeds from any state. -/
def Succeeds (m : StateT σ (Except ε) α) : Prop :=
  ∀ s, ∃ value s', m s = .ok (value, s')

theorem succeeds_pure (value : α) : Succeeds (pure value : StateT σ (Except ε) α) :=
  fun s => ⟨value, s, rfl⟩

theorem succeeds_bind {m : StateT σ (Except ε) α} {next : α → StateT σ (Except ε) β}
    (hm : Succeeds m) (hnext : ∀ value, Succeeds (next value)) : Succeeds (m >>= next) := by
  intro s
  obtain ⟨value, s', hfirst⟩ := hm s
  obtain ⟨value', s'', hrest⟩ := hnext value s'
  refine ⟨value', s'', ?_⟩
  change (m s >>= fun (value, s') => next value s') = _
  rw [hfirst]
  exact hrest

end StatefulProgram
