import Mathlib.Logic.Relation

/-!
# Programs that ask an environment

A service that talks to a database is a sequential program whose every
interesting step is a question put to something it does not control.  A program
is therefore a tree: it returns, or it asks one question of its *interface* and
goes on with whatever the answer is.  An *environment* says which answers are
possible, how its own state moves with each, and what it may do by itself
between two questions (`drift`).

## Strategy

`Upholds E Inv p Q s` is the weakest precondition of running `p` from `s`: `Inv`
holds at every point of the run, whatever the environment answers and however
it drifts, and `Q` holds of the returned value.  Drift is absorbed once, in
`Settled`, so the rules below never mention it again: `upholds_bind` runs one
program after another, `upholds_perform` asks one question, `upholds_imp`
weakens a postcondition.  `UpholdsTry` repeats them for programs that may fail.

`invariant_of_upholds` is the pay-off.  A *service* starts one of its programs
whenever it is idle, may be killed at any point, and starts again; if every
program upholds `Inv` from every state with `Inv`, then `Inv` holds in every
state the service can reach.
-/

namespace Interaction

open Relation

/-- The questions a program may ask, and the type of the answers to each. -/
structure Interface where
  Op : Type
  Ans : Op → Type

/-- A program over an interface: it returns, or asks and continues. -/
inductive Prog (I : Interface) (α : Type) : Type
  | ret (value : α)
  | ask (op : I.Op) (rest : I.Ans op → Prog I α)

variable {I J : Interface} {α β ε : Type}

namespace Prog

/-- Run `p`, then the program its value selects. -/
def bind : Prog I α → (α → Prog I β) → Prog I β
  | ret value, next => next value
  | ask op rest, next => ask op fun answer => (rest answer).bind next

instance : Monad (Prog I) where
  pure := ret
  bind := bind

/-- Ask one question and return its answer. -/
def perform (op : I.Op) : Prog I (I.Ans op) :=
  ask op ret

@[simp] theorem pure_eq (value : α) : (pure value : Prog I α) = ret value := rfl

@[simp] theorem ret_bind (value : α) (next : α → Prog I β) : (ret value >>= next) = next value :=
  rfl

@[simp] theorem ask_bind (op : I.Op) (rest : I.Ans op → Prog I α) (next : α → Prog I β) :
    (ask op rest >>= next) = ask op fun answer => rest answer >>= next :=
  rfl

end Prog

/-! ## Environments -/

/-- What answers a program: the answers it may give to a question and where
each leaves it, and the moves it makes by itself. -/
structure Environment (I : Interface) where
  State : Type
  answers : State → (op : I.Op) → I.Ans op → State → Prop
  drift : State → State → Prop

variable {E : Environment I} {Inv : E.State → Prop}

/-- `Inv` and `P` hold now, and still do after any drift. -/
def Settled (E : Environment I) (Inv P : E.State → Prop) (s : E.State) : Prop :=
  ∀ s', ReflTransGen E.drift s s' → Inv s' ∧ P s'

/-- Every point of a run of the program from `s` satisfies `Inv`, and its
returned value satisfies `Q`. -/
def Upholds (E : Environment I) (Inv : E.State → Prop) :
    Prog I α → (α → E.State → Prop) → E.State → Prop
  | .ret value, Q, s => Settled E Inv (Q value) s
  | .ask op rest, Q, s =>
      Settled E Inv (fun s' => ∀ answer s'', E.answers s' op answer s'' →
        Upholds E Inv (rest answer) Q s'') s

/-- A predicate the environment cannot break by drifting. -/
def Stable (E : Environment I) (P : E.State → Prop) : Prop :=
  ∀ s s', P s → E.drift s s' → P s'

theorem Stable.and {P Q : E.State → Prop} (hP : Stable E P) (hQ : Stable E Q) :
    Stable E fun s => P s ∧ Q s :=
  fun s s' h hdrift => ⟨hP s s' h.1 hdrift, hQ s s' h.2 hdrift⟩

theorem Stable.settled {P : E.State → Prop} (hstable : Stable E P)
    (hinv : ∀ s, P s → Inv s) {s : E.State} (hs : P s) : Settled E Inv P s := by
  intro s' hdrift
  have hs' : P s' := by
    induction hdrift with
    | refl => exact hs
    | tail _ hstep ih => exact hstable _ _ ih hstep
  exact ⟨hinv s' hs', hs'⟩

theorem Settled.drift {P : E.State → Prop} {s s' : E.State} (h : Settled E Inv P s)
    (hdrift : ReflTransGen E.drift s s') : Settled E Inv P s' :=
  fun s'' hdrift' => h s'' (hdrift.trans hdrift')

theorem Settled.now {P : E.State → Prop} {s : E.State} (h : Settled E Inv P s) : P s :=
  (h s .refl).2

theorem Settled.inv {P : E.State → Prop} {s : E.State} (h : Settled E Inv P s) : Inv s :=
  (h s .refl).1

theorem Settled.imp {P P' : E.State → Prop} {s : E.State} (h : Settled E Inv P s)
    (himp : ∀ s, Settled E Inv P s → P' s) : Settled E Inv P' s :=
  fun s' hdrift => ⟨(h s' hdrift).1, himp s' (h.drift hdrift)⟩

/-! ## Rules -/

/-- A postcondition may be weakened, using that it holds under any drift. -/
theorem upholds_imp {p : Prog I α} {Q Q' : α → E.State → Prop}
    (himp : ∀ value s, Settled E Inv (Q value) s → Q' value s) {s : E.State}
    (h : Upholds E Inv p Q s) : Upholds E Inv p Q' s := by
  induction p generalizing s with
  | ret value => exact Settled.imp h (himp value)
  | ask op rest ih =>
      refine Settled.imp h fun s' hs' answer s'' hanswer => ?_
      exact ih answer (hs'.now answer s'' hanswer)

/-- **Sequencing.**  What `p` establishes is what the rest starts from. -/
theorem upholds_bind {p : Prog I α} {next : α → Prog I β} {Q : β → E.State → Prop} {s : E.State}
    (h : Upholds E Inv p (fun value s => Upholds E Inv (next value) Q s) s) :
    Upholds E Inv (p >>= next) Q s := by
  induction p generalizing s with
  | ret value => exact h.now
  | ask op rest ih =>
      refine Settled.imp h fun s' hs' answer s'' hanswer => ?_
      exact ih answer (hs'.now answer s'' hanswer)

theorem upholds_perform {op : I.Op} {P : E.State → Prop} {Q : I.Ans op → E.State → Prop}
    {s : E.State} (h : Settled E Inv P s)
    (hanswers : ∀ s' answer s'', P s' → E.answers s' op answer s'' →
      Settled E Inv (Q answer) s'') :
    Upholds E Inv (.perform op) Q s :=
  h.imp fun s' hs' answer s'' hanswer => hanswers s' answer s'' hs'.now hanswer

theorem upholds_drift {p : Prog I α} {Q : α → E.State → Prop} {s s' : E.State}
    (h : Upholds E Inv p Q s) (hdrift : ReflTransGen E.drift s s') : Upholds E Inv p Q s' := by
  cases p with
  | ret value => exact Settled.drift h hdrift
  | ask op rest => exact Settled.drift h hdrift

theorem upholds_inv {p : Prog I α} {Q : α → E.State → Prop} {s : E.State}
    (h : Upholds E Inv p Q s) : Inv s := by
  cases p with
  | ret value => exact Settled.inv h
  | ask op rest => exact Settled.inv h

/-- Folding a program over a list: each item extends what is known of the items before it. -/
theorem upholds_foldlM {γ : Type} {body : β → γ → Prog I β} {K : List γ → β → E.State → Prop}
    {items : List γ} (hsettled : ∀ done acc s, K done acc s → Settled E Inv (K done acc) s)
    (hbody : ∀ done item acc s, item ∈ items → K done acc s →
      Upholds E Inv (body acc item) (K (done ++ [item])) s) :
    ∀ (done : List γ) {acc : β} {s : E.State}, K done acc s →
      Upholds E Inv (items.foldlM body acc) (K (done ++ items)) s := by
  induction items with
  | nil =>
      intro done acc s hdone
      rw [List.append_nil]
      exact hsettled done acc s hdone
  | cons item rest ih =>
      intro done acc s hdone
      rw [List.foldlM_cons]
      refine upholds_bind (upholds_imp ?_ (hbody done item acc s List.mem_cons_self hdone))
      intro acc' s' hs'
      have hrest := ih (fun done item acc s hmem => hbody done item acc s
        (List.mem_cons_of_mem _ hmem)) (done ++ [item]) hs'.now
      rwa [List.append_assoc, List.singleton_append] at hrest

/-! ### Programs judged by their values -/

/-- From wherever the invariant holds the program keeps it, and its value satisfies `R`. -/
def Gives (E : Environment I) (Inv : E.State → Prop) (p : Prog I α) (R : α → Prop) : Prop :=
  ∀ s, Inv s → Upholds E Inv p (fun value _ => R value) s

theorem gives_pure (hstable : Stable E Inv) {value : α} {R : α → Prop} (h : R value) :
    Gives E Inv (pure value) R :=
  fun _ hs => (hstable.settled (fun _ h => h) hs).imp fun _ _ => h

theorem gives_bind {p : Prog I α} {next : α → Prog I β} {R : α → Prop} {R' : β → Prop}
    (h : Gives E Inv p R) (hnext : ∀ value, R value → Gives E Inv (next value) R') :
    Gives E Inv (p >>= next) R' := by
  intro s hs
  refine upholds_bind (upholds_imp ?_ (h s hs))
  intro value s' hs'
  exact hnext value hs'.now s' hs'.inv

theorem gives_ite {c : Prop} [Decidable c] {p q : Prog I α} {R : α → Prop}
    (hp : c → Gives E Inv p R) (hq : ¬ c → Gives E Inv q R) :
    Gives E Inv (if c then p else q) R := by
  by_cases hc : c
  · rw [if_pos hc]
    exact hp hc
  · rw [if_neg hc]
    exact hq hc

theorem gives_perform (hstable : Stable E Inv) {op : I.Op} {R : I.Ans op → Prop}
    (hanswers : ∀ s answer s', Inv s → E.answers s op answer s' → Inv s' ∧ R answer) :
    Gives E Inv (Prog.perform op) R := by
  intro s hs
  refine upholds_perform (hstable.settled (fun _ h => h) hs) ?_
  intro s' answer s'' hs' hanswer
  obtain ⟨hinv, hR⟩ := hanswers s' answer s'' hs' hanswer
  exact (hstable.settled (fun _ h => h) hinv).imp fun _ _ => hR

/-! ### Programs that may fail -/

/-- `Upholds` for a program that may fail: `Q` on success, `F` on failure. -/
def UpholdsTry (E : Environment I) (Inv : E.State → Prop) (p : ExceptT ε (Prog I) α)
    (Q : α → E.State → Prop) (F : E.State → Prop) (s : E.State) : Prop :=
  Upholds E Inv p.run (fun
    | .ok value => Q value
    | .error _ => F) s

theorem upholdsTry_pure {value : α} {Q : α → E.State → Prop} {F : E.State → Prop} {s : E.State}
    (h : Settled E Inv (Q value) s) :
    UpholdsTry E Inv (pure value : ExceptT ε (Prog I) α) Q F s :=
  h

theorem upholdsTry_throw {error : ε} {Q : α → E.State → Prop} {F : E.State → Prop} {s : E.State}
    (h : Settled E Inv F s) : UpholdsTry E Inv (throw error : ExceptT ε (Prog I) α) Q F s :=
  h

theorem upholdsTry_bind {p : ExceptT ε (Prog I) α} {next : α → ExceptT ε (Prog I) β}
    {Q : β → E.State → Prop} {F : E.State → Prop} {s : E.State}
    (h : UpholdsTry E Inv p (fun value s => UpholdsTry E Inv (next value) Q F s) F s) :
    UpholdsTry E Inv (p >>= next) Q F s := by
  refine upholds_bind (upholds_imp ?_ h)
  intro result s' hs'
  cases result with
  | ok value => exact hs'.now
  | error error => exact hs'

theorem upholdsTry_lift {p : Prog I α} {Q : α → E.State → Prop} {F : E.State → Prop} {s : E.State}
    (h : Upholds E Inv p Q s) : UpholdsTry E Inv (ExceptT.lift p : ExceptT ε (Prog I) α) Q F s :=
  upholds_bind (upholds_imp (fun _ _ hs' => hs') h)

theorem upholdsTry_imp {p : ExceptT ε (Prog I) α} {Q Q' : α → E.State → Prop}
    {F F' : E.State → Prop} (hQ : ∀ value s, Settled E Inv (Q value) s → Q' value s)
    (hF : ∀ s, F s → F' s) {s : E.State} (h : UpholdsTry E Inv p Q F s) :
    UpholdsTry E Inv p Q' F' s := by
  refine upholds_imp ?_ h
  intro result s' hs'
  cases result with
  | ok value => exact hQ value s' hs'
  | error error => exact hF s' hs'.now

theorem upholdsTry_adapt {ε' : Type} {f : ε → ε'} {p : ExceptT ε (Prog I) α}
    {Q : α → E.State → Prop} {F : E.State → Prop} {s : E.State} (h : UpholdsTry E Inv p Q F s) :
    UpholdsTry E Inv (ExceptT.adapt f p) Q F s := by
  refine upholds_bind (upholds_imp ?_ h)
  rintro (error | value) s' hs' <;> exact hs'

/-- Running a failing program over a list: each item extends what is known of
the items before it. -/
theorem upholdsTry_forM {γ : Type} {body : γ → ExceptT ε (Prog I) PUnit}
    {K : List γ → E.State → Prop} {F : E.State → Prop} {items : List γ}
    (hsettled : ∀ done s, K done s → Settled E Inv (K done) s)
    (hbody : ∀ done item s, item ∈ items → K done s →
      UpholdsTry E Inv (body item) (fun _ => K (done ++ [item])) F s) :
    ∀ (done : List γ) {s : E.State}, K done s →
      UpholdsTry E Inv (items.forM body) (fun _ => K (done ++ items)) F s := by
  induction items with
  | nil =>
      intro done s hdone
      rw [List.append_nil]
      exact upholdsTry_pure (hsettled done s hdone)
  | cons item rest ih =>
      intro done s hdone
      change UpholdsTry E Inv (body item >>= fun _ => rest.forM body) _ F s
      refine upholdsTry_bind (upholdsTry_imp ?_ (fun _ h => h)
        (hbody done item s List.mem_cons_self hdone))
      intro _ s' hs'
      have hrest := ih (fun done item s hmem => hbody done item s (List.mem_cons_of_mem _ hmem))
        (done ++ [item]) hs'.now
      rwa [List.append_assoc, List.singleton_append] at hrest

/-! ## Two interfaces side by side -/

/-- The questions of both interfaces. -/
def Interface.sum (I J : Interface) : Interface where
  Op := I.Op ⊕ J.Op
  Ans
    | .inl op => I.Ans op
    | .inr op => J.Ans op

/-- A program of the first interface, as one of both. -/
def Prog.inl : Prog I α → Prog (I.sum J) α
  | .ret value => .ret value
  | .ask op rest => .ask (I := I.sum J) (.inl op) fun answer => (rest answer).inl

/-- Two environments that do not see each other. -/
def Environment.sum (E : Environment I) (H : Environment J) : Environment (I.sum J) where
  State := E.State × H.State
  answers
    | s, .inl op, answer, s' => E.answers s.1 op answer s'.1 ∧ s'.2 = s.2
    | s, .inr op, answer, s' => H.answers s.2 op answer s'.2 ∧ s'.1 = s.1
  drift s s' := (E.drift s.1 s'.1 ∧ s'.2 = s.2) ∨ (H.drift s.2 s'.2 ∧ s'.1 = s.1)

variable {H : Environment J}

theorem drift_fst {s s' : (E.sum H).State} (hdrift : ReflTransGen (E.sum H).drift s s') :
    ReflTransGen E.drift s.1 s'.1 := by
  induction hdrift with
  | refl => exact .refl
  | tail _ hstep ih =>
      rcases hstep with ⟨hfirst, -⟩ | ⟨-, hsame⟩
      · exact ih.tail hfirst
      · rw [hsame]; exact ih

theorem Settled.fst {P : E.State → Prop} {s : (E.sum H).State} (h : Settled E Inv P s.1) :
    Settled (E.sum H) (fun s => Inv s.1) (fun s => P s.1) s :=
  fun s' hdrift => h s'.1 (drift_fst hdrift)

/-- What a program upholds of its own environment it upholds beside any other. -/
theorem upholds_inl {p : Prog I α} {Q : α → E.State → Prop} {s : (E.sum H).State}
    (h : Upholds E Inv p Q s.1) :
    Upholds (E.sum H) (fun s => Inv s.1) p.inl (fun value s => Q value s.1) s := by
  induction p generalizing s with
  | ret value => exact Settled.fst h
  | ask op rest ih =>
      intro s' hdrift
      obtain ⟨hinv, hrest⟩ := h s'.1 (drift_fst hdrift)
      exact ⟨hinv, fun answer s'' hanswer => ih answer (hrest answer s''.1 hanswer.1)⟩

/-- A question to the second environment leaves what is known of the first. -/
theorem upholds_perform_inr {op : J.Op} {P : E.State → Prop} {R : J.Ans op → Prop}
    {s : (E.sum H).State} (h : Settled E Inv P s.1)
    (hR : ∀ t answer t', H.answers t op answer t' → R answer) :
    Upholds (E.sum H) (fun s => Inv s.1) (.perform (I := I.sum J) (.inr op))
      (fun answer s => P s.1 ∧ R answer) s := by
  refine upholds_perform (E := E.sum H) (P := fun s => Settled E Inv P s.1) ?_ ?_
  · exact fun s' hdrift => ⟨(h s'.1 (drift_fst hdrift)).1, h.drift (drift_fst hdrift)⟩
  · rintro s' answer s'' hs' ⟨hanswer, hsame⟩ t hdrift
    rw [← hsame] at hs'
    exact ⟨(hs' t.1 (drift_fst hdrift)).1, (hs' t.1 (drift_fst hdrift)).2,
      hR s'.2 answer s''.2 hanswer⟩

/-! ## An interface that looks at the environment -/

/-- The questions of both interfaces; the second's are answered in view of the first
environment, which they do not move. -/
def Environment.beside (E : Environment I) (J : Interface) (T : Type)
    (answers : E.State × T → (op : J.Op) → J.Ans op → T → Prop) : Environment (I.sum J) where
  State := E.State × T
  answers
    | s, .inl op, answer, s' => E.answers s.1 op answer s'.1 ∧ s'.2 = s.2
    | s, .inr op, answer, s' => answers s op answer s'.2 ∧ s'.1 = s.1
  drift s s' := E.drift s.1 s'.1 ∧ s'.2 = s.2

/-- What the first environment cannot break, by answers or by itself. -/
def Kept (E : Environment I) {T : Type} (K : E.State × T → Prop) : Prop :=
  ∀ s s' t, K (s, t) → (E.drift s s' ∨ ∃ op answer, E.answers s op answer s') → K (s', t)

section

variable {T : Type} {answers : E.State × T → (op : J.Op) → J.Ans op → T → Prop}
  {K : E.State × T → Prop}

theorem drift_beside {s s' : (E.beside J T answers).State}
    (hdrift : ReflTransGen (E.beside J T answers).drift s s') (hK : Kept E K) (hs : K s) :
    ReflTransGen E.drift s.1 s'.1 ∧ s'.2 = s.2 ∧ K s' := by
  induction hdrift with
  | refl => exact ⟨.refl, rfl, hs⟩
  | @tail mid last _ hstep ih =>
      obtain ⟨hfirst, hsecond, hmid⟩ := ih
      obtain ⟨hmove, hsame⟩ := hstep
      refine ⟨hfirst.tail hmove, hsame.trans hsecond, ?_⟩
      have hlast := hK mid.1 last.1 mid.2 hmid (.inl hmove)
      rwa [← hsame] at hlast

theorem settled_beside (hK : Kept E K) {P : E.State → Prop} {s : (E.beside J T answers).State}
    (h : Settled E Inv P s.1) (hs : K s) :
    Settled (E.beside J T answers) (fun s => Inv s.1 ∧ K s) (fun s => P s.1 ∧ K s) s := by
  intro s' hdrift
  obtain ⟨hfirst, -, hs'⟩ := drift_beside hdrift hK hs
  exact ⟨⟨(h s'.1 hfirst).1, hs'⟩, (h s'.1 hfirst).2, hs'⟩

/-- What a program upholds of the first environment it upholds here, with what that
environment keeps. -/
theorem upholds_inl_beside (hK : Kept E K) {p : Prog I α} {Q : α → E.State → Prop}
    {s : (E.beside J T answers).State} (h : Upholds E Inv p Q s.1) (hs : K s) :
    Upholds (E.beside J T answers) (fun s => Inv s.1 ∧ K s) p.inl
      (fun value s => Q value s.1 ∧ K s) s := by
  induction p generalizing s with
  | ret value => exact settled_beside hK h hs
  | ask op rest ih =>
      intro s' hdrift
      obtain ⟨hfirst, -, hs'⟩ := drift_beside hdrift hK hs
      obtain ⟨hinv, hrest⟩ := h s'.1 hfirst
      refine ⟨⟨hinv, hs'⟩, fun answer s'' hanswer => ?_⟩
      obtain ⟨hmove, hsame⟩ := hanswer
      refine ih answer (hrest answer s''.1 hmove) ?_
      have hs'' := hK s'.1 s''.1 s'.2 hs' (.inr ⟨op, answer, hmove⟩)
      rwa [← hsame] at hs''

/-- A question of the second interface. -/
theorem upholds_inr_beside (hK : Kept E K) {op : J.Op} {P : E.State → Prop}
    {Q : J.Ans op → E.State → Prop} {s : (E.beside J T answers).State}
    (h : Settled E Inv P s.1) (hs : K s)
    (hanswers : ∀ s' answer t, P s'.1 → K s' → answers s' op answer t →
      Settled E Inv (Q answer) s'.1 ∧ K (s'.1, t)) :
    Upholds (E.beside J T answers) (fun s => Inv s.1 ∧ K s)
      (@Prog.perform (I.sum J) (.inr op)) (fun answer s => Q answer s.1 ∧ K s) s := by
  refine @upholds_perform (I.sum J) (E.beside J T answers) _ (.inr op)
    (fun s => Settled E Inv P s.1 ∧ K s) _ s ?_ ?_
  · intro s' hdrift
    obtain ⟨hfirst, -, hs'⟩ := drift_beside hdrift hK hs
    exact ⟨⟨(h s'.1 hfirst).1, hs'⟩, h.drift hfirst, hs'⟩
  · rintro s' answer s'' ⟨hsettled, hs'⟩ ⟨hanswer, hsame⟩
    obtain ⟨hQ, hs''⟩ := hanswers s' answer s''.2 hsettled.now hs' hanswer
    rw [← hsame] at hQ hs''
    exact settled_beside hK hQ hs''

end

/-! ## Services -/

/-- A service: the environment, and the program it is in the middle of. -/
structure Config (E : Environment I) (α : Type) where
  env : E.State
  running : Option (Prog I α)

/-- One step of a service that starts programs from `programs` when idle. -/
inductive Step (E : Environment I) (programs : Prog I α → Prop) :
    Config E α → Config E α → Prop
  | wake {s p} (hprogram : programs p) : Step E programs ⟨s, none⟩ ⟨s, some p⟩
  | answer {s op rest answer s'} (hanswer : E.answers s op answer s') :
      Step E programs ⟨s, some (.ask op rest)⟩ ⟨s', some (rest answer)⟩
  | done {s value} : Step E programs ⟨s, some (.ret value)⟩ ⟨s, none⟩
  | crash {s p} : Step E programs ⟨s, some p⟩ ⟨s, none⟩
  | drift {s s' running} (hdrift : E.drift s s') : Step E programs ⟨s, running⟩ ⟨s', running⟩

/-- Any number of steps of a service. -/
abbrev Steps (E : Environment I) (programs : Prog I α → Prop) : Config E α → Config E α → Prop :=
  ReflTransGen (Step E programs)

/-- A configuration reached by any number of steps from an idle service. -/
def Reachable (E : Environment I) (programs : Prog I α → Prop) (initial : E.State)
    (c : Config E α) : Prop :=
  Steps E programs ⟨initial, none⟩ c

/-- Steps go on with any answer the environment may give. -/
theorem steps_answer {programs : Prog I α → Prop} {c : Config E α} {s s' : E.State}
    {p : Prog I α} {op : I.Op} {rest : I.Ans op → Prog I α} {answer : I.Ans op}
    (hsteps : Steps E programs c ⟨s, some p⟩) (hp : p = .ask op rest)
    (hanswer : E.answers s op answer s') : Steps E programs c ⟨s', some (rest answer)⟩ := by
  subst hp
  exact hsteps.tail (.answer hanswer)

theorem Reachable.answer {programs : Prog I α → Prop} {initial s s' : E.State} {p : Prog I α}
    {op : I.Op} {rest : I.Ans op → Prog I α} {answer : I.Ans op}
    (hreach : Reachable E programs initial ⟨s, some p⟩) (hp : p = .ask op rest)
    (hanswer : E.answers s op answer s') :
    Reachable E programs initial ⟨s', some (rest answer)⟩ :=
  steps_answer hreach hp hanswer

/-- A service that may start more programs reaches no less. -/
theorem Reachable.mono {programs programs' : Prog I α → Prop} {initial : E.State} {c : Config E α}
    (hreach : Reachable E programs initial c) (hmono : ∀ p, programs p → programs' p) :
    Reachable E programs' initial c := by
  refine ReflTransGen.mono (fun c c' hstep => ?_) _ _ hreach
  cases hstep with
  | wake hprogram => exact .wake (hmono _ hprogram)
  | answer hanswer => exact .answer hanswer
  | done => exact .done
  | crash => exact .crash
  | drift hdrift => exact .drift hdrift

/-- What holds of a reachable configuration: the invariant, and that the rest of
the running program still upholds it. -/
private def Config.Safe (Inv : E.State → Prop) (Q : α → E.State → Prop) (c : Config E α) : Prop :=
  Inv c.env ∧ ∀ p, c.running = some p → Upholds E Inv p Q c.env

private theorem Config.Safe.step {programs : Prog I α → Prop} {Q : α → E.State → Prop}
    (hstable : Stable E Inv) (hprograms : ∀ p, programs p → ∀ s, Inv s → Upholds E Inv p Q s)
    {c c' : Config E α} (hsafe : c.Safe Inv Q) (hstep : Step E programs c c') : c'.Safe Inv Q := by
  cases hstep with
  | wake hprogram =>
      refine ⟨hsafe.1, fun p hp => ?_⟩
      cases hp
      exact hprograms _ hprogram _ hsafe.1
  | answer hanswer =>
      have hrest := (hsafe.2 _ rfl).now _ _ hanswer
      refine ⟨upholds_inv hrest, fun p hp => ?_⟩
      cases hp
      exact hrest
  | done => exact ⟨hsafe.1, fun p hp => by cases hp⟩
  | crash => exact ⟨hsafe.1, fun p hp => by cases hp⟩
  | drift hdrift =>
      refine ⟨hstable _ _ hsafe.1 hdrift, fun p hp => ?_⟩
      exact upholds_drift (hsafe.2 p hp) (.single hdrift)

private theorem safe_of_reachable {programs : Prog I α → Prop} {Q : α → E.State → Prop}
    (hstable : Stable E Inv) (hprograms : ∀ p, programs p → ∀ s, Inv s → Upholds E Inv p Q s)
    {initial : E.State} (hinitial : Inv initial) {c : Config E α}
    (hreach : Reachable E programs initial c) : c.Safe Inv Q := by
  induction hreach with
  | refl => exact ⟨hinitial, fun p hp => by cases hp⟩
  | tail _ hstep ih => exact ih.step hstable hprograms hstep

/-- **Invariants of services.**  If every program upholds a stable `Inv` from
every state that has it, then every reachable state has it. -/
theorem invariant_of_upholds {programs : Prog I α → Prop} (hstable : Stable E Inv)
    (hprograms : ∀ p, programs p → ∀ s, Inv s → Upholds E Inv p (fun _ _ => True) s)
    {initial : E.State} (hinitial : Inv initial) {c : Config E α}
    (hreach : Reachable E programs initial c) : Inv c.env :=
  (safe_of_reachable hstable hprograms hinitial hreach).1

/-- What holds where a program has returned, or none has started, still holds later. -/
theorem invariant_after {programs : Prog I α → Prop} (hstable : Stable E Inv)
    (hprograms : ∀ p, programs p → ∀ s, Inv s → Upholds E Inv p (fun _ _ => True) s)
    {c c' : Config E α} (hc : ∀ p, c.running = some p → ∃ value, p = .ret value)
    (hinv : Inv c.env) (hsteps : ReflTransGen (Step E programs) c c') : Inv c'.env := by
  have hsafe : c'.Safe Inv fun _ _ => True := by
    induction hsteps with
    | refl =>
        refine ⟨hinv, fun p hp => ?_⟩
        obtain ⟨value, rfl⟩ := hc p hp
        exact (hstable.settled (fun _ h => h) hinv).imp fun _ _ => trivial
    | tail _ hstep ih => exact ih.step hstable hprograms hstep
  exact hsafe.1

/-- **Results of services.**  What every program establishes of its result holds wherever
one has returned. -/
theorem returned_of_upholds {programs : Prog I α → Prop} {Q : α → E.State → Prop}
    (hstable : Stable E Inv) (hprograms : ∀ p, programs p → ∀ s, Inv s → Upholds E Inv p Q s)
    {initial : E.State} (hinitial : Inv initial) {c : Config E α}
    (hreach : Reachable E programs initial c) {value : α} (hvalue : c.running = some (.ret value)) :
    Q value c.env :=
  ((safe_of_reachable hstable hprograms hinitial hreach).2 _ hvalue).now

end Interaction
