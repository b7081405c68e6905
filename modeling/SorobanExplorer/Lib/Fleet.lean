import Mathlib.Logic.Function.Basic
import SorobanExplorer.Lib.Interaction

/-!
# Services that share an environment

Any number of services run against one environment.  Each runs programs of its own, may
ask questions that only it can ask, and may be killed at any point; the questions of all
of them interleave in any order.

## Strategy

What one service sees of the others is drift.  `E.under rely` is the environment with the
moves of others added, and `keeping Inv G` is what those moves have in common: they are
related by `G`, which every move of the environment is, and they keep the invariant, which
is what each service upholds.  So a program is followed on its own, against drift that
keeps the invariant (`Upholds`), and `safe_of_reachable` puts the services back together:
the step of one service is an answer to it and drift to all others.
-/

namespace Interaction

open Relation

variable {I : Interface} {E : Environment I}

/-! ## The moves of others -/

/-- The environment, which others move as well. -/
def Environment.under (E : Environment I) (rely : E.State → E.State → Prop) : Environment I where
  State := E.State
  answers := E.answers
  drift s s' := E.drift s s' ∨ rely s s'

/-- Moves that are related by `G` and keep the invariant. -/
def keeping {S : Type} (Inv : S → Prop) (G : S → S → Prop) (s s' : S) : Prop :=
  G s s' ∧ (Inv s → Inv s')

/-- Every move of the environment, by an answer or by itself, is related by `G`. -/
structure Moves (E : Environment I) (G : E.State → E.State → Prop) : Prop where
  answers : ∀ s op answer s', E.answers s op answer s' → G s s'
  drift : ∀ s s', E.drift s s' → G s s'

/-! ## Services -/

/-- A service beside the shared environment: the questions only it can ask, the state
behind their answers, and the programs it runs. -/
structure Service (E : Environment I) where
  own : Interface
  State : Type
  answers : E.State × State → (op : own.Op) → own.Ans op → State → Prop
  Result : Type
  programs : Prog (I.sum own) Result → Prop

/-- The world of a service that is alone. -/
abbrev Service.world (service : Service E) : Environment (I.sum service.own) :=
  E.beside service.own service.State service.answers

/-- The world of a service among others. -/
abbrev Service.worldUnder (service : Service E) (rely : E.State → E.State → Prop) :
    Environment (I.sum service.own) :=
  (E.under rely).beside service.own service.State service.answers

/-- Others change when an answer comes, not which. -/
theorem Service.answers_under {service : Service E} {rely : E.State → E.State → Prop}
    {s s' : E.State × service.State} {op : (I.sum service.own).Op}
    {answer : (I.sum service.own).Ans op} (h : service.world.answers s op answer s') :
    (service.worldUnder rely).answers s op answer s' := by
  cases op with
  | inl op => exact h
  | inr op => exact h

/-- What the others keep, and what is kept of the service's own state, no drift breaks. -/
theorem stable_worldUnder {service : Service E} {Inv : E.State → Prop}
    {G : E.State → E.State → Prop} {K : E.State × service.State → Prop} (hstable : Stable E Inv)
    (hkept : Kept (E.under (keeping Inv G)) K) :
    Stable (service.worldUnder (keeping Inv G)) fun s => Inv s.1 ∧ K s := by
  intro s s' hs hdrift
  obtain ⟨hmove, hsame⟩ := hdrift
  refine ⟨?_, ?_⟩
  · rcases hmove with halone | hothers
    · exact hstable s.1 s'.1 hs.1 halone
    · exact hothers.2 hs.1
  · have hK := hkept s.1 s'.1 s.2 hs.2 (.inl hmove)
    rwa [← hsame] at hK

/-! ## Facts that stay

What a service may carry from one question to the next, whatever the others do. -/

/-- A fact that every move related by `G` keeps. -/
def Lasting {S : Type} (G : S → S → Prop) (P : S → Prop) : Prop :=
  ∀ s s', P s → G s s' → P s'

theorem Lasting.and {S : Type} {G : S → S → Prop} {P Q : S → Prop} (hP : Lasting G P)
    (hQ : Lasting G Q) : Lasting G fun s => P s ∧ Q s :=
  fun s s' h hmove => ⟨hP s s' h.1 hmove, hQ s s' h.2 hmove⟩

theorem lasting_const {S : Type} (G : S → S → Prop) (p : Prop) : Lasting G fun _ => p :=
  fun _ _ h _ => h

section

variable {service : Service E} {Inv P : E.State → Prop} {G : E.State → E.State → Prop}
  {s : E.State × service.State}

/-- The world of a service that relies on the others for the invariant alone. -/
abbrev Service.worldAmong (service : Service E) (Inv : E.State → Prop)
    (G : E.State → E.State → Prop) : Environment (I.sum service.own) :=
  service.worldUnder (keeping Inv G)

/-- The invariant of the shared state, for a service that keeps nothing of its own. -/
abbrev Service.Shared (service : Service E) (Inv : E.State → Prop)
    (s : E.State × service.State) : Prop :=
  Inv s.1 ∧ True

/-- A program among the others establishes a fact of the shared state. -/
abbrev Service.Establishes (service : Service E) (Inv : E.State → Prop)
    (G : E.State → E.State → Prop) {α : Type} (p : Prog (I.sum service.own) α)
    (Q : α → E.State → Prop) (s : E.State × service.State) : Prop :=
  Upholds (service.worldAmong Inv G) (service.Shared Inv) p (fun value s => Q value s.1) s

variable (hmoves : Moves E G) (hstable : Stable E Inv)

include hmoves hstable

theorem settled_of_lasting (hP : Lasting G P) (hinv : Inv s.1) (hs : P s.1) :
    Settled (service.worldAmong Inv G) (service.Shared Inv) (fun s => P s.1) s := by
  have hboth : Stable (service.worldAmong Inv G) fun s => Inv s.1 ∧ P s.1 := by
    intro s s' h hdrift
    rcases hdrift.1 with halone | hothers
    · exact ⟨hstable _ _ h.1 halone, hP _ _ h.2 (hmoves.drift _ _ halone)⟩
    · exact ⟨hothers.2 h.1, hP _ _ h.2 hothers.1⟩
  exact (hboth.settled (fun _ h => ⟨h.1, trivial⟩) ⟨hinv, hs⟩).imp fun _ h => h.now.2

theorem establishes_ret {α : Type} {value : α} {Q : α → E.State → Prop}
    (hQ : Lasting G (Q value)) (hinv : Inv s.1) (hs : Q value s.1) :
    service.Establishes Inv G (.ret value) Q s :=
  settled_of_lasting hmoves hstable hQ hinv hs

/-- A question to the shared environment. -/
theorem establishes_shared (op : I.Op) {Q : I.Ans op → E.State → Prop} (hP : Lasting G P)
    (hQ : ∀ answer, Lasting G (Q answer)) (hinv : Inv s.1) (hs : P s.1)
    (hanswer : ∀ s answer s', Inv s → P s → E.answers s op answer s' → Inv s' ∧ Q answer s') :
    service.Establishes Inv G (@Prog.perform (I.sum service.own) (.inl op)) Q s := by
  refine upholds_perform (E := service.worldAmong Inv G) (P := fun s => Inv s.1 ∧ P s.1)
    ((settled_of_lasting hmoves hstable hP hinv hs).imp fun s h => ⟨h.inv.1, h.now⟩) ?_
  intro s' answer s'' hs' hans
  obtain ⟨hinv', hs''⟩ := hanswer s'.1 answer s''.1 hs'.1 hs'.2 hans.1
  exact settled_of_lasting hmoves hstable (hQ answer) hinv' hs''

/-- A question only the service can ask tells nothing of the shared state. -/
theorem establishes_own (op : service.own.Op) (hP : Lasting G P) (hinv : Inv s.1)
    (hs : P s.1) :
    service.Establishes Inv G (@Prog.perform (I.sum service.own) (.inr op)) (fun _ => P) s := by
  refine upholds_perform (E := service.worldAmong Inv G) (P := fun s => Inv s.1 ∧ P s.1)
    ((settled_of_lasting hmoves hstable hP hinv hs).imp fun s h => ⟨h.inv.1, h.now⟩) ?_
  intro s' answer s'' hs' hans
  have hsame : s''.1 = s'.1 := hans.2
  rw [← hsame] at hs'
  exact settled_of_lasting hmoves hstable hP hs'.1 hs'.2

omit hstable in
/-- **Frame.**  What lasts still holds where a program has returned. -/
theorem establishes_frame {α : Type} {p : Prog (I.sum service.own) α} {Q : α → E.State → Prop}
    (hP : Lasting G P) (h : service.Establishes Inv G p Q s) (hs : P s.1) :
    service.Establishes Inv G p (fun value s => Q value s ∧ P s) s := by
  have hdrift : ∀ s s' : E.State × service.State,
      ReflTransGen (service.worldAmong Inv G).drift s s' → P s.1 → P s'.1 := by
    intro s s' hdrift hs
    induction hdrift with
    | refl => exact hs
    | tail _ hstep ih =>
        rcases hstep.1 with halone | hothers
        · exact hP _ _ ih (hmoves.drift _ _ halone)
        · exact hP _ _ ih hothers.1
  induction p generalizing s with
  | ret value =>
      intro s' hs'
      exact ⟨(h s' hs').1, (h s' hs').2, hdrift s s' hs' hs⟩
  | ask op rest ih =>
      intro s' hs'
      refine ⟨(h s' hs').1, fun answer s'' hanswer =>
        ih answer ((h s' hs').2 answer s'' hanswer) ?_⟩
      have hbefore := hdrift s s' hs' hs
      cases op with
      | inl op => exact hP _ _ hbefore (hmoves.answers _ op answer _ hanswer.1)
      | inr op =>
          have hsame : s''.1 = s'.1 := hanswer.2
          rw [hsame]
          exact hbefore

omit hmoves hstable in
theorem establishes_bind {α β : Type} {p : Prog (I.sum service.own) α}
    {next : α → Prog (I.sum service.own) β} {R : α → E.State → Prop} {Q : β → E.State → Prop}
    (h : service.Establishes Inv G p R s)
    (hnext : ∀ value s, Inv s.1 → R value s.1 → service.Establishes Inv G (next value) Q s) :
    service.Establishes Inv G (p >>= next) Q s := by
  refine upholds_bind (upholds_imp ?_ h)
  intro value s' hs'
  exact hnext value s' hs'.inv.1 hs'.now

omit hmoves hstable in
theorem establishes_imp {α : Type} {p : Prog (I.sum service.own) α} {Q Q' : α → E.State → Prop}
    (h : service.Establishes Inv G p Q s) (himp : ∀ value s, Q value s → Q' value s) :
    service.Establishes Inv G p Q' s := by
  refine upholds_imp ?_ h
  intro value s' hs'
  exact himp value s'.1 hs'.now

end

variable {ι : Type} {service : ι → Service E}

/-- The services of a fleet at work: the shared state, the state of each, and the program
each is in the middle of. -/
structure Fleet (service : ι → Service E) where
  shared : E.State
  own : (i : ι) → (service i).State
  running : (i : ι) → Option (Prog (I.sum (service i).own) (service i).Result)

namespace Fleet

variable [DecidableEq ι]

/-- One step of a fleet: some service takes one of its own, or the environment moves. -/
inductive Step : Fleet service → Fleet service → Prop
  | wake {f : Fleet service} {i : ι} {p : Prog (I.sum (service i).own) (service i).Result}
      (hidle : f.running i = none) (hprogram : (service i).programs p) :
      Step f { f with running := Function.update f.running i (some p) }
  | answer {f : Fleet service} {i : ι} {op : (I.sum (service i).own).Op}
      {rest : (I.sum (service i).own).Ans op → Prog (I.sum (service i).own) (service i).Result}
      {answer : (I.sum (service i).own).Ans op} {s : E.State} {t : (service i).State}
      (hrunning : f.running i = some (.ask op rest))
      (hanswer : (service i).world.answers (f.shared, f.own i) op answer (s, t)) :
      Step f ⟨s, Function.update f.own i t, Function.update f.running i (some (rest answer))⟩
  | done {f : Fleet service} {i : ι} {value : (service i).Result}
      (hrunning : f.running i = some (.ret value)) :
      Step f { f with running := Function.update f.running i none }
  | crash {f : Fleet service} (i : ι) :
      Step f { f with running := Function.update f.running i none }
  | drift {f : Fleet service} {s : E.State} (hdrift : E.drift f.shared s) :
      Step f { f with shared := s }

/-- A fleet of idle services. -/
def idle (shared : E.State) (own : (i : ι) → (service i).State) : Fleet service :=
  ⟨shared, own, fun _ => none⟩

/-- A fleet reached by any number of steps from one whose services are idle. -/
def Reachable (shared : E.State) (own : (i : ι) → (service i).State) (f : Fleet service) : Prop :=
  ReflTransGen Step (idle shared own) f

/-! ## What a fleet upholds -/

variable {Inv : E.State → Prop} {G : E.State → E.State → Prop}
  {K : (i : ι) → E.State × (service i).State → Prop}
  {Q : (i : ι) → (service i).Result → E.State × (service i).State → Prop}

/-- What holds of a reachable fleet: the invariant, what each service keeps, and that the
rest of each running program still upholds both. -/
structure Safe (Inv : E.State → Prop) (G : E.State → E.State → Prop)
    (K : (i : ι) → E.State × (service i).State → Prop)
    (Q : (i : ι) → (service i).Result → E.State × (service i).State → Prop)
    (f : Fleet service) : Prop where
  inv : Inv f.shared
  kept : ∀ i, K i (f.shared, f.own i)
  upholds : ∀ i p, f.running i = some p →
    Upholds ((service i).worldUnder (keeping Inv G)) (fun s => Inv s.1 ∧ K i s) p (Q i)
      (f.shared, f.own i)

omit [DecidableEq ι] in
/-- A move of others is drift to a service. -/
theorem Safe.moved {f : Fleet service} (hsafe : f.Safe Inv G K Q)
    (hkept : ∀ i, Kept (E.under (keeping Inv G)) (K i)) {s : E.State}
    (hmove : (E.under (keeping Inv G)).drift f.shared s) (i : ι) :
    K i (s, f.own i) ∧ ∀ p, f.running i = some p →
      Upholds ((service i).worldUnder (keeping Inv G)) (fun s => Inv s.1 ∧ K i s) p (Q i)
        (s, f.own i) := by
  refine ⟨hkept i f.shared s (f.own i) (hsafe.kept i) (.inl hmove), fun p hp => ?_⟩
  exact upholds_drift (hsafe.upholds i p hp) (.single ⟨hmove, rfl⟩)

/-- Starting, ending or killing the program of one service. -/
theorem Safe.update {f : Fleet service} (hsafe : f.Safe Inv G K Q) {i : ι}
    {running : Option (Prog (I.sum (service i).own) (service i).Result)}
    (hrunning : ∀ p, running = some p →
      Upholds ((service i).worldUnder (keeping Inv G)) (fun s => Inv s.1 ∧ K i s) p (Q i)
        (f.shared, f.own i)) :
    Safe Inv G K Q { f with running := Function.update f.running i running } where
  inv := hsafe.inv
  kept := hsafe.kept
  upholds := by
    intro j p hp
    by_cases hj : j = i
    · subst hj
      exact hrunning p (by simpa using hp)
    · exact hsafe.upholds j p (by simpa [Function.update_of_ne hj] using hp)

theorem Safe.step {f f' : Fleet service} (hmoves : Moves E G) (hstable : Stable E Inv)
    (hkept : ∀ i, Kept (E.under (keeping Inv G)) (K i))
    (hprograms : ∀ i p, (service i).programs p → ∀ s, Inv s.1 → K i s →
      Upholds ((service i).worldUnder (keeping Inv G)) (fun s => Inv s.1 ∧ K i s) p (Q i) s)
    (hsafe : f.Safe Inv G K Q) (hstep : Step f f') : f'.Safe Inv G K Q := by
  cases hstep with
  | wake hidle hprogram =>
      refine hsafe.update fun p hp => ?_
      cases hp
      exact hprograms _ _ hprogram _ hsafe.inv (hsafe.kept _)
  | @answer i op rest answer s t hrunning hanswer =>
      have hrest := (hsafe.upholds i _ hrunning).now answer (s, t) (Service.answers_under hanswer)
      have hinv : Inv s ∧ K i (s, t) := upholds_inv hrest
      -- to the other services this is drift, unless it left the shared state alone
      have hothers : ∀ j, K j (s, f.own j) ∧ ∀ p, f.running j = some p →
          Upholds ((service j).worldUnder (keeping Inv G)) (fun s => Inv s.1 ∧ K j s) p (Q j)
            (s, f.own j) := by
        intro j
        cases op with
        | inl op =>
            have hmove : keeping Inv G f.shared s :=
              ⟨hmoves.answers f.shared op answer s hanswer.1, fun _ => hinv.1⟩
            exact hsafe.moved hkept (.inr hmove) j
        | inr op =>
            have hsame : s = f.shared := hanswer.2
            rw [hsame]
            exact ⟨hsafe.kept j, hsafe.upholds j⟩
      refine ⟨hinv.1, fun j => ?_, fun j p hp => ?_⟩
      · by_cases hj : j = i
        · subst hj
          simpa using hinv.2
        · simpa [Function.update_of_ne hj] using (hothers j).1
      · by_cases hj : j = i
        · subst hj
          have hp : rest answer = p := by simpa using hp
          subst hp
          simpa using hrest
        · simpa [Function.update_of_ne hj] using
            (hothers j).2 p (by simpa [Function.update_of_ne hj] using hp)
  | done hrunning => exact hsafe.update fun p hp => by cases hp
  | crash i => exact hsafe.update fun p hp => by cases hp
  | @drift s hdrift =>
      have hmoved := fun i => hsafe.moved (s := s) hkept (.inl hdrift) i
      exact ⟨hstable _ _ hsafe.inv hdrift, fun i => (hmoved i).1, fun i => (hmoved i).2⟩

/-- **Services side by side.**  If every program of every service upholds the invariant
against moves that keep it, so does the fleet, whatever the order of their steps. -/
theorem safe_of_reachable (hmoves : Moves E G) (hstable : Stable E Inv)
    (hkept : ∀ i, Kept (E.under (keeping Inv G)) (K i))
    (hprograms : ∀ i p, (service i).programs p → ∀ s, Inv s.1 → K i s →
      Upholds ((service i).worldUnder (keeping Inv G)) (fun s => Inv s.1 ∧ K i s) p (Q i) s)
    {shared : E.State} {own : (i : ι) → (service i).State} (hshared : Inv shared)
    (hown : ∀ i, K i (shared, own i)) {f : Fleet service} (hreach : Reachable shared own f) :
    f.Safe Inv G K Q := by
  induction hreach with
  | refl => exact ⟨hshared, hown, fun i p hp => by cases hp⟩
  | tail _ hstep ih => exact ih.step hmoves hstable hkept hprograms hstep

omit [DecidableEq ι] in
theorem Safe.returned {f : Fleet service} (hsafe : f.Safe Inv G K Q) {i : ι}
    {value : (service i).Result} (hvalue : f.running i = some (.ret value)) :
    Q i value (f.shared, f.own i) :=
  Settled.now (hsafe.upholds i _ hvalue)

/-! ## The program of one service -/

/-- Steps during which the program of a service is neither ended nor killed. -/
def Session (i : ι) : Fleet service → Fleet service → Prop :=
  ReflTransGen fun f f' => Step f f' ∧ f'.running i ≠ none

theorem Session.reachable {shared : E.State} {own : (i : ι) → (service i).State}
    {f f' : Fleet service} {i : ι} (hsession : Session i f f') (hreach : Reachable shared own f) :
    Reachable shared own f' :=
  hreach.trans (ReflTransGen.mono (fun _ _ hstep => hstep.1) _ _ hsession)

/-- Since `f₀` the service may have come to the shared state `s` with `p` left to run. -/
def Comes (i : ι) (f₀ : Fleet service) (s : E.State)
    (p : Prog (I.sum (service i).own) (service i).Result) : Prop :=
  ∃ f, Session i f₀ f ∧ f.shared = s ∧ f.running i = some p

theorem Comes.start {f₀ : Fleet service} {i : ι}
    {p : Prog (I.sum (service i).own) (service i).Result} (hrunning : f₀.running i = some p) :
    Comes i f₀ f₀.shared p :=
  ⟨f₀, .refl, rfl, hrunning⟩

/-- A session goes on with any answer of the shared environment. -/
theorem Comes.answer {f₀ : Fleet service} {i : ι} {s s' : E.State}
    {p : Prog (I.sum (service i).own) (service i).Result} (h : Comes i f₀ s p) (op : I.Op)
    (answer : I.Ans op)
    {rest : I.Ans op → Prog (I.sum (service i).own) (service i).Result}
    (hp : p = .ask (I := I.sum (service i).own) (.inl op) rest)
    (hanswer : E.answers s op answer s') : Comes i f₀ s' (rest answer) := by
  obtain ⟨f, hsession, rfl, hrunning⟩ := h
  rw [hp] at hrunning
  exact ⟨_, hsession.tail ⟨.answer hrunning ⟨hanswer, rfl⟩, by simp⟩, rfl, by simp⟩

/-- A session goes on with any answer to the service itself. -/
theorem Comes.ask {f₀ : Fleet service} {i : ι} {s : E.State}
    {p : Prog (I.sum (service i).own) (service i).Result} (h : Comes i f₀ s p)
    (op : (service i).own.Op) (answer : (service i).own.Ans op)
    {rest : (service i).own.Ans op → Prog (I.sum (service i).own) (service i).Result}
    (hp : p = .ask (I := I.sum (service i).own) (.inr op) rest)
    (hanswer : ∀ t, ∃ t', (service i).answers (s, t) op answer t') :
    Comes i f₀ s (rest answer) := by
  obtain ⟨f, hsession, rfl, hrunning⟩ := h
  rw [hp] at hrunning
  obtain ⟨t', hanswer⟩ := hanswer (f.own i)
  exact ⟨_, hsession.tail ⟨.answer hrunning ⟨hanswer, rfl⟩, by simp⟩, rfl, by simp⟩

/-- The rest of a program that stays at work still upholds what the program does. -/
private theorem Safe.followed {f f' : Fleet service} (hmoves : Moves E G)
    (hsafe : f.Safe Inv G K Q) {i : ι}
    {R : (service i).Result → E.State × (service i).State → Prop}
    (hfollowed : ∀ p, f.running i = some p →
      Upholds ((service i).worldUnder (keeping Inv G)) (fun s => Inv s.1 ∧ K i s) p R
        (f.shared, f.own i))
    (hatWork : f.running i ≠ none) (hstep : Step f f') (hstill : f'.running i ≠ none) :
    ∀ p, f'.running i = some p →
      Upholds ((service i).worldUnder (keeping Inv G)) (fun s => Inv s.1 ∧ K i s) p R
        (f'.shared, f'.own i) := by
  intro p hp
  cases hstep with
  | @wake j q hidle hprogram =>
      have hj : i ≠ j := fun hj => hatWork (hj ▸ hidle)
      exact hfollowed p (by simpa [Function.update_of_ne hj] using hp)
  | @answer j op rest answer s t hrunning hanswer =>
      -- the step is another service's or its own
      have hrest := (hsafe.upholds j _ hrunning).now answer (s, t) (Service.answers_under hanswer)
      by_cases hj : i = j
      · subst hj
        have hnext := (hfollowed _ hrunning).now answer (s, t) (Service.answers_under hanswer)
        have hp : rest answer = p := by simpa using hp
        subst hp
        simpa using hnext
      · have hbefore : f.running i = some p := by simpa [Function.update_of_ne hj] using hp
        have hinv : Inv s := (upholds_inv hrest).1
        simp only [Function.update_of_ne hj]
        cases op with
        | inl op =>
            -- another's step is a move of the environment
            have hmove : keeping Inv G f.shared s :=
              ⟨hmoves.answers f.shared op answer s hanswer.1, fun _ => hinv⟩
            exact upholds_drift (hfollowed p hbefore) (.single ⟨.inr hmove, rfl⟩)
        | inr op =>
            have hsame : s = f.shared := hanswer.2
            rw [hsame]
            exact hfollowed p hbefore
  | @done j value hrunning =>
      have hj : i ≠ j := fun hj => hstill (by subst hj; exact Function.update_self ..)
      exact hfollowed p (by simpa [Function.update_of_ne hj] using hp)
  | crash j =>
      have hj : i ≠ j := fun hj => hstill (by subst hj; exact Function.update_self ..)
      exact hfollowed p (by simpa [Function.update_of_ne hj] using hp)
  | drift hdrift => exact upholds_drift (hfollowed p hp) (.single ⟨.inl hdrift, rfl⟩)

/-- **One program among the others.**  A program that is followed from where it is
establishes, where it returns, what it does against the moves of the others. -/
theorem Safe.session {f f' : Fleet service} (hmoves : Moves E G) (hstable : Stable E Inv)
    (hkept : ∀ i, Kept (E.under (keeping Inv G)) (K i))
    (hprograms : ∀ i p, (service i).programs p → ∀ s, Inv s.1 → K i s →
      Upholds ((service i).worldUnder (keeping Inv G)) (fun s => Inv s.1 ∧ K i s) p (Q i) s)
    (hsafe : f.Safe Inv G K Q) {i : ι}
    {R : (service i).Result → E.State × (service i).State → Prop}
    {p : Prog (I.sum (service i).own) (service i).Result} (hrunning : f.running i = some p)
    (hfollowed : Upholds ((service i).worldUnder (keeping Inv G)) (fun s => Inv s.1 ∧ K i s) p R
      (f.shared, f.own i))
    (hsession : Session i f f') {value : (service i).Result}
    (hvalue : f'.running i = some (.ret value)) : R value (f'.shared, f'.own i) := by
  have hall : f'.Safe Inv G K Q ∧ f'.running i ≠ none ∧ ∀ p, f'.running i = some p →
      Upholds ((service i).worldUnder (keeping Inv G)) (fun s => Inv s.1 ∧ K i s) p R
        (f'.shared, f'.own i) := by
    clear hvalue
    induction hsession with
    | refl =>
        refine ⟨hsafe, by simp [hrunning], fun q hq => ?_⟩
        have hsame : p = q := Option.some.inj (hrunning.symm.trans hq)
        rw [← hsame]
        exact hfollowed
    | tail _ hstep ih =>
        obtain ⟨hsafe, hatWork, hfollowed⟩ := ih
        exact ⟨hsafe.step hmoves hstable hkept hprograms hstep.1, hstep.2,
          hsafe.followed hmoves hfollowed hatWork hstep.1 hstep.2⟩
  exact Settled.now (hall.2.2 _ hvalue)

/-! ## One service of a fleet -/

/-- One step of a service is one of the fleet it belongs to, wherever that is. -/
private theorem step_update (f : Fleet service) {i : ι}
    {c c' : Config (service i).world (service i).Result}
    (hstep : Interaction.Step (service i).world (service i).programs c c') :
    Step
      ⟨c.env.1, Function.update f.own i c.env.2, Function.update f.running i c.running⟩
      ⟨c'.env.1, Function.update f.own i c'.env.2, Function.update f.running i c'.running⟩ := by
  cases hstep with
  | @wake s p hprogram =>
      have hwake := @Step.wake _ _ _ _ _ ⟨s.1, Function.update f.own i s.2,
        Function.update f.running i none⟩ i p (by simp) hprogram
      simpa using hwake
  | @answer s op rest answer s' hanswer =>
      -- the service sees the shared state and its own
      have hown : (service i).world.answers (s.1, Function.update f.own i s.2 i) op answer
          (s'.1, s'.2) := by
        rw [Function.update_self]
        exact hanswer
      have hanswered := @Step.answer _ _ _ _ _ ⟨s.1, Function.update f.own i s.2,
        Function.update f.running i (some (.ask op rest))⟩ i op rest answer s'.1 s'.2
        (by simp) hown
      simpa using hanswered
  | @done s value =>
      have hdone := @Step.done _ _ _ _ _ ⟨s.1, Function.update f.own i s.2,
        Function.update f.running i (some (.ret value))⟩ i value (by simp)
      simpa using hdone
  | @crash s p =>
      have hcrash := @Step.crash _ _ _ _ _ ⟨s.1, Function.update f.own i s.2,
        Function.update f.running i (some p)⟩ i
      simpa using hcrash
  | @drift s s' running hdrift =>
      obtain ⟨hmove, hsame⟩ := hdrift
      change Step ⟨s.1, Function.update f.own i s.2, Function.update f.running i running⟩
        ⟨s'.1, Function.update f.own i s'.2, Function.update f.running i running⟩
      rw [hsame]
      exact .drift hmove

/-- Steps of one service are steps of the fleet, in which the others stay where they are. -/
theorem exists_of_steps {f : Fleet service} {i : ι}
    {running : Option (Prog (I.sum (service i).own) (service i).Result)}
    {c : Config (service i).world (service i).Result} (hrunning : f.running i = running)
    (hsteps : Steps (service i).world (service i).programs ⟨(f.shared, f.own i), running⟩ c) :
    ∃ f', ReflTransGen Step f f' ∧ f'.shared = c.env.1 ∧ f'.own i = c.env.2 ∧
      f'.running i = c.running ∧ ∀ j, j ≠ i → f'.own j = f.own j ∧ f'.running j = f.running j := by
  have hfleet : ReflTransGen Step f ⟨c.env.1, Function.update f.own i c.env.2,
      Function.update f.running i c.running⟩ := by
    induction hsteps with
    | refl =>
        rw [← hrunning, Function.update_eq_self, Function.update_eq_self]
    | tail _ hstep ih => exact ih.tail (step_update f hstep)
  refine ⟨_, hfleet, rfl, by simp, by simp, fun j hj => ?_⟩
  simp [Function.update_of_ne hj]

/-- A run of one service is a run of the fleet. -/
theorem exists_of_service {i : ι} {shared : E.State} {own : (i : ι) → (service i).State}
    {c : Config (service i).world (service i).Result}
    (hreach : Interaction.Reachable (service i).world (service i).programs (shared, own i) c) :
    ∃ f, Reachable shared own f ∧ f.shared = c.env.1 ∧ f.own i = c.env.2 ∧
      f.running i = c.running := by
  obtain ⟨f, hsteps, hshared, hown, hrunning, -⟩ :=
    exists_of_steps (f := idle shared own) rfl hreach
  exact ⟨f, hsteps, hshared, hown, hrunning⟩

/-- A service may be killed and start any of its programs, wherever the fleet is. -/
theorem Reachable.restart {shared : E.State} {own : (i : ι) → (service i).State}
    {f : Fleet service} (hreach : Reachable shared own f) (i : ι)
    {p : Prog (I.sum (service i).own) (service i).Result} (hprogram : (service i).programs p) :
    ∃ f', Reachable shared own f' ∧ f'.shared = f.shared ∧ f'.running i = some p :=
  ⟨_, (hreach.tail (.crash i)).tail (.wake (Function.update_self ..) hprogram), rfl,
    Function.update_self ..⟩

end Fleet

end Interaction
