import Mathlib.Data.List.Count
import SorobanExplorer.Indexer.Cursor

/-!
# Self-pacing over the public data lake

The lake rings no doorbell, so after each wake the processor queues itself one
message that names the ledger it expects.  `oneChain_of_run` follows the messages
in flight through any run of wakes: once a wake has stored ledgers, exactly one of
them expects the next ledger.

## Strategy

A message expects the ledger after the newest one stored when it was queued, and
the newest stored never goes back.  So no message expects more than the next
ledger, the one that a storing wake leaves behind is the only one that does, and a
message that is dropped was already overtaken.
-/

namespace SorobanExplorer.Indexer.LakePacing

open Interaction Persist Relation

def LEDGER_INTERVAL_SECS : ℤ := 5

def LAKE_MARGIN_SECS : ℤ := 3

def MAX_DELAY_SECS : ℤ := 15

/-- A chain message: the ledger it expects, and how many looks found it missing. -/
structure Expect where
  expect : ℤ
  attempt : UInt32
  deriving DecidableEq

inductive Wake
  | chain (message : Expect)
  | keepalive
  deriving DecidableEq

/-- Any body that is no chain message is a keepalive. -/
def Wake.parse (fromStr : String → Option Expect) : Option String → Wake
  | none => .keepalive
  | some body =>
      match fromStr body with
      | some message => .chain message
      | none => .keepalive

structure Next where
  message : Expect
  delaySecs : ℤ
  deriving DecidableEq

/-- Seconds between looks at a late file. -/
def backoff (attempt : UInt32) : ℤ :=
  if attempt = 1 then 1 else if attempt = 2 then 2 else if attempt = 3 then 4
  else if attempt = 4 then 8 else 15

/-- The message a wake leaves behind.  The close time is known if it stored ledgers. -/
def next (wake : Wake) (done : Reconciled) (newestClosedAt : Option ℤ) (now : ℤ) : Option Next :=
  match newestClosedAt with
  | some closedAt => some
      { message := ⟨done.newest + 1, 0⟩
        delaySecs := max 1 (min (closedAt + LEDGER_INTERVAL_SECS + LAKE_MARGIN_SECS - now)
          MAX_DELAY_SECS) }
  | none =>
      match wake with
      | .chain e =>
          if 0 < done.newest ∧ done.newest < e.expect then
            some ⟨⟨e.expect, e.attempt + 1⟩, backoff (e.attempt + 1)⟩
          else none
      | .keepalive => none

/-! ## What a reconcile reports -/

/-- The report of a reconcile that found the newest stored at `maxSeq` and stored so
many ledgers. -/
def reconciledFrom (maxSeq : ℤ) (bucket : String) (persisted : ℕ) : Reconciled :=
  match firstLedgerToRead maxSeq bucket with
  | none => ⟨0, 0⟩
  | some start => ⟨persisted, if persisted = 0 then maxSeq else start + persisted - 1⟩

variable {Row : Type} {E : Environment ((clickHouse Row).sum handlerInterface)}

theorem upholds_true {I : Interface} {α : Type} {E : Environment I} (p : Prog I α) :
    ∀ s, Upholds E (fun _ => True) p (fun _ _ => True) s := by
  induction p with
  | ret value => exact fun s s' _ => ⟨trivial, trivial⟩
  | ask op rest ih => exact fun s s' _ => ⟨trivial, fun answer s'' _ => ih answer s''⟩

theorem upholdsTry_true {α : Type} (p : Handler Row α) (s : E.State) :
    UpholdsTry E (fun _ => True) p (fun _ _ => True) (fun _ => True) s :=
  upholds_imp (fun result _ _ => by cases result <;> trivial) (upholds_true p.run s)

theorem reconcileLoop_report (state : HandlerState) (maxSeq start : ℤ) (budget : ℕ) :
    ∀ (stored : ℕ) (s : E.State),
      UpholdsTry E (fun _ => True)
        (reconcileLoop state budget (start + stored)
          ⟨stored, if stored = 0 then maxSeq else start + stored - 1⟩ : Handler Row Reconciled)
        (fun done _ => ∃ persisted : ℕ,
          done = ⟨persisted, if persisted = 0 then maxSeq else start + persisted - 1⟩)
        (fun _ => True) s := by
  induction budget with
  | zero => exact fun stored s => upholdsTry_pure fun _ _ => ⟨trivial, stored, rfl⟩
  | succ budget ih =>
      intro stored s
      rw [reconcileLoop]
      refine upholdsTry_bind (upholdsTry_imp (fun found s' _ => ?_) (fun _ h => h)
        (upholdsTry_true _ s))
      cases found with
      | false => exact upholdsTry_pure fun _ _ => ⟨trivial, stored, rfl⟩
      | true =>
          refine upholdsTry_bind (upholdsTry_imp (fun _ s'' _ => ?_) (fun _ h => h)
            (upholdsTry_true _ s'))
          have hrest := ih (stored + 1) s''
          rw [Nat.cast_succ, ← add_assoc, if_neg (Nat.succ_ne_zero stored),
            add_sub_cancel_right] at hrest
          exact hrest

/-- A reconcile that succeeds reports what `reconciledFrom` says, whatever the store
and the lake answer. -/
theorem reconcile_report (state : HandlerState) (budget : ℕ) (s : E.State) :
    UpholdsTry E (fun _ => True) (reconcile state budget : Handler Row Reconciled)
      (fun done _ => ∃ maxSeq persisted, done = reconciledFrom maxSeq state.bucket persisted)
      (fun _ => True) s := by
  rw [reconcile]
  refine upholdsTry_bind (upholdsTry_imp (fun maxSeq s' _ => ?_) (fun _ h => h)
    (upholdsTry_true _ s))
  cases hstart : firstLedgerToRead maxSeq state.bucket with
  | none =>
      exact upholdsTry_pure fun _ _ => ⟨trivial, maxSeq, 0, by rw [reconciledFrom, hstart]⟩
  | some start =>
      have hloop := reconcileLoop_report (E := E) state maxSeq start budget 0 s'
      rw [Nat.cast_zero, add_zero, if_pos rfl] at hloop
      refine upholdsTry_imp (fun done _ hdone => ?_) (fun _ h => h) hloop
      obtain ⟨persisted, rfl⟩ := hdone.now
      exact ⟨maxSeq, persisted, by rw [reconciledFrom, hstart]⟩

/-! ## Runs -/

/-- The newest ledger stored (0 over an empty table) and the chain messages in
flight. -/
structure Pacing where
  newest : ℤ
  inFlight : List Expect

/-- What became of a wake: it stored so many ledgers and finished, or it stored so
many and failed. -/
inductive Outcome
  | finished (persisted : ℕ) (closedAt : ℤ)
  | failed (persisted : ℕ)

def Outcome.persisted : Outcome → ℕ
  | .finished persisted _ => persisted
  | .failed persisted => persisted

/-- The newest stored after a reconcile from `newest`. -/
def newestAfter (newest : ℤ) (done : Reconciled) : ℤ :=
  if done.persisted = 0 then newest else done.newest

/-- The messages left once a wake's own is deleted. -/
def deleted (wake : Wake) (inFlight : List Expect) : List Expect :=
  match wake with
  | .chain e => inFlight.erase e
  | .keepalive => inFlight

/-- One wake: a reconcile, then the next message.  The message of a wake that failed
is delivered again, and nothing is queued. -/
def paced (bucket : String) (s : Pacing) (wake : Wake) (outcome : Outcome) (now : ℤ) : Pacing :=
  let done := reconciledFrom s.newest bucket outcome.persisted
  match outcome with
  | .finished _ closedAt =>
      let newestClosedAt := if 0 < done.persisted then some closedAt else none
      { newest := newestAfter s.newest done
        inFlight := deleted wake s.inFlight ++
          ((next wake done newestClosedAt now).map Next.message).toList }
  | .failed _ => { newest := newestAfter s.newest done, inFlight := s.inFlight }

/-- A body can arrive if it is no chain message, or the one of a message in flight. -/
def Arrives (s : Pacing) (wake : Wake) : Prop :=
  ∀ e, wake = .chain e → e ∈ s.inFlight

/-- One message handled. -/
def Step (fromStr : String → Option Expect) (bucket : String) (s s' : Pacing) : Prop :=
  ∃ body outcome now, Arrives s (Wake.parse fromStr body) ∧
    s' = paced bucket s (Wake.parse fromStr body) outcome now

/-- One message handled by a wake that, if it failed, failed before it stored a
ledger. -/
def CleanStep (fromStr : String → Option Expect) (bucket : String) (s s' : Pacing) : Prop :=
  ∃ body outcome now, Arrives s (Wake.parse fromStr body) ∧
    (∀ persisted, outcome = .failed persisted → persisted = 0) ∧
    s' = paced bucket s (Wake.parse fromStr body) outcome now

/-- What one clean wake does: it stores ledgers and leaves a message for the one
after them; or it stores nothing, and its message stays, gives way to one for the
same ledger, or is dropped because its ledger is stored or none is. -/
theorem paced_cases (bucket : String) (s : Pacing) (wake : Wake) {outcome : Outcome} (now : ℤ)
    (hclean : ∀ persisted, outcome = .failed persisted → persisted = 0) :
    (s.newest < (paced bucket s wake outcome now).newest ∧
      0 < (paced bucket s wake outcome now).newest ∧
      (paced bucket s wake outcome now).inFlight = deleted wake s.inFlight ++
        [⟨(paced bucket s wake outcome now).newest + 1, 0⟩]) ∨
    ((paced bucket s wake outcome now).newest = s.newest ∧
      ((paced bucket s wake outcome now).inFlight = s.inFlight ∨
        ∃ e, wake = .chain e ∧
          ((paced bucket s wake outcome now).inFlight =
              s.inFlight.erase e ++ [⟨e.expect, e.attempt + 1⟩] ∨
            (paced bucket s wake outcome now).inFlight = s.inFlight.erase e ∧
              ¬ (0 < s.newest ∧ s.newest < e.expect)))) := by
  unfold paced
  cases hstart : firstLedgerToRead s.newest bucket with
  | none =>
      -- an empty table that no ledger may be read into
      have hempty : ¬ 0 < s.newest := by
        intro hpos
        rw [firstLedgerToRead, if_pos hpos] at hstart
        cases hstart
      right
      cases outcome with
      | failed persisted => simp [reconciledFrom, hstart, newestAfter]
      | finished persisted closedAt =>
          cases wake <;> simp [reconciledFrom, hstart, newestAfter, next, deleted, hempty]
  | some start =>
      obtain ⟨hafter, hpos⟩ := firstLedgerToRead_spec hstart
      cases outcome with
      | failed persisted =>
          obtain rfl := hclean persisted rfl
          right
          simp [reconciledFrom, hstart, newestAfter, Outcome.persisted]
      | finished persisted closedAt =>
          obtain rfl | hstored := Nat.eq_zero_or_pos persisted
          · right
            cases wake with
            | keepalive =>
                simp [reconciledFrom, hstart, newestAfter, Outcome.persisted, next, deleted]
            | chain e =>
                refine ⟨by simp [reconciledFrom, hstart, newestAfter, Outcome.persisted],
                  .inr ⟨e, rfl, ?_⟩⟩
                by_cases hlate : 0 < s.newest ∧ s.newest < e.expect
                · left
                  simp [reconciledFrom, hstart, Outcome.persisted, next, deleted, hlate]
                · right
                  exact ⟨by simp [reconciledFrom, hstart, Outcome.persisted, next, deleted, hlate],
                    hlate⟩
          · left
            have hne : persisted ≠ 0 := by omega
            refine ⟨?_, ?_, ?_⟩
            · simp only [reconciledFrom, hstart, newestAfter, Outcome.persisted, if_neg hne]
              omega
            · simp only [reconciledFrom, hstart, newestAfter, Outcome.persisted, if_neg hne]
              omega
            · simp [reconciledFrom, hstart, newestAfter, Outcome.persisted, next, hne, hstored]

/-! ## One chain -/

variable {fromStr : String → Option Expect} {bucket : String} {s s' : Pacing}

/-- No message expects more than the next ledger. -/
def Bounded (s : Pacing) : Prop :=
  ∀ e ∈ s.inFlight, e.expect ≤ s.newest + 1

/-- Exactly one message expects the next ledger. -/
def OneChain (s : Pacing) : Prop :=
  0 < s.newest ∧ s.inFlight.countP (·.expect = s.newest + 1) = 1

theorem mem_of_mem_deleted {wake : Wake} {inFlight : List Expect} {e : Expect}
    (h : e ∈ deleted wake inFlight) : e ∈ inFlight := by
  cases wake with
  | chain message => exact List.mem_of_mem_erase h
  | keepalive => exact h

theorem bounded_step (hs : Bounded s) (h : CleanStep fromStr bucket s s') : Bounded s' := by
  obtain ⟨body, outcome, now, harrives, hclean, rfl⟩ := h
  intro e he
  obtain ⟨hnewer, -, hqueue⟩ | ⟨hsame, hqueue | ⟨message, hwake, hqueue | ⟨hqueue, -⟩⟩⟩ :=
    paced_cases bucket s (Wake.parse fromStr body) now hclean
  · rw [hqueue, List.mem_append, List.mem_singleton] at he
    obtain hold | rfl := he
    · have hbound := hs e (mem_of_mem_deleted hold)
      omega
    · exact le_rfl
  · rw [hsame]
    rw [hqueue] at he
    exact hs e he
  · rw [hsame]
    rw [hqueue, List.mem_append, List.mem_singleton] at he
    obtain hold | rfl := he
    · exact hs e (List.mem_of_mem_erase hold)
    · exact hs message (harrives message hwake)
  · rw [hsame]
    rw [hqueue] at he
    exact hs e (List.mem_of_mem_erase he)

/-- A wake that stores ledgers leaves the one message for the next. -/
theorem oneChain_of_stored (hs : Bounded s) (h : CleanStep fromStr bucket s s')
    (hstored : s.newest < s'.newest) : OneChain s' := by
  obtain ⟨body, outcome, now, -, hclean, rfl⟩ := h
  obtain ⟨hnewer, hpos, hqueue⟩ | ⟨hsame, -⟩ :=
    paced_cases bucket s (Wake.parse fromStr body) now hclean
  · refine ⟨hpos, ?_⟩
    have hold : (deleted (Wake.parse fromStr body) s.inFlight).countP
        (·.expect = (paced bucket s (Wake.parse fromStr body) outcome now).newest + 1) = 0 := by
      rw [List.countP_eq_zero]
      intro e he
      have hbound := hs e (mem_of_mem_deleted he)
      simp only [decide_eq_true_eq]
      omega
    rw [hqueue, List.countP_append, hold]
    simp
  · omega

theorem oneChain_step (hs : OneChain s) (hbounded : Bounded s)
    (h : CleanStep fromStr bucket s s') : OneChain s' := by
  by_cases hstored : s.newest < s'.newest
  · exact oneChain_of_stored hbounded h hstored
  · obtain ⟨hpos, hone⟩ := hs
    obtain ⟨body, outcome, now, harrives, hclean, rfl⟩ := h
    obtain ⟨hnewer, -⟩ | ⟨hsame, hqueue | ⟨message, hwake, hqueue | ⟨hqueue, hdropped⟩⟩⟩ :=
      paced_cases bucket s (Wake.parse fromStr body) now hclean
    · exact absurd hnewer hstored
    · rw [OneChain, hsame, hqueue]
      exact ⟨hpos, hone⟩
    · -- looked again: the message gives way to one for the same ledger
      have hmem := harrives message hwake
      rw [OneChain, hsame, hqueue, List.countP_append, List.countP_erase]
      refine ⟨hpos, ?_⟩
      by_cases hnext : message.expect = s.newest + 1
      · simp [hmem, hnext, hone]
      · simp [hnext, hone]
    · -- dropped: its ledger is stored
      rw [OneChain, hsame, hqueue, List.countP_erase]
      refine ⟨hpos, ?_⟩
      have hnext : message.expect ≠ s.newest + 1 := by omega
      simp [hnext, hone]

theorem bounded_run (hs : Bounded s) (h : ReflTransGen (CleanStep fromStr bucket) s s') :
    Bounded s' := by
  induction h with
  | refl => exact hs
  | tail _ hstep ih => exact bounded_step ih hstep

theorem oneChain_run (hs : OneChain s) (hbounded : Bounded s)
    (h : ReflTransGen (CleanStep fromStr bucket) s s') : OneChain s' := by
  induction h with
  | refl => exact hs
  | tail hrun hstep ih => exact oneChain_step ih (bounded_run hbounded hrun) hstep

/-- A wake adds a message only if it comes from outside the chain and stores ledgers. -/
theorem length_inFlight_paced (wake : Wake) (outcome : Outcome) (now : ℤ)
    (harrives : Arrives s wake) :
    (paced bucket s wake outcome now).inFlight.length ≤ s.inFlight.length ∨
      (wake = .keepalive ∧ s.newest < (paced bucket s wake outcome now).newest) := by
  cases outcome with
  | failed persisted => exact .inl le_rfl
  | finished persisted closedAt =>
      have hclean : ∀ stored, Outcome.finished persisted closedAt = .failed stored → stored = 0 :=
        fun _ h => nomatch h
      obtain ⟨hnewer, -, hqueue⟩ | ⟨-, hqueue | ⟨e, rfl, hqueue | ⟨hqueue, -⟩⟩⟩ :=
        paced_cases bucket s wake now hclean
      · cases wake with
        | keepalive => exact .inr ⟨rfl, hnewer⟩
        | chain e =>
            left
            have hpos := List.length_pos_of_mem (harrives e rfl)
            rw [hqueue, deleted, List.length_append, List.length_erase_of_mem (harrives e rfl),
              List.length_singleton]
            omega
      · exact .inl (by rw [hqueue])
      · left
        have hpos := List.length_pos_of_mem (harrives e rfl)
        rw [hqueue, List.length_append, List.length_erase_of_mem (harrives e rfl),
          List.length_singleton]
        omega
      · left
        rw [hqueue]
        exact List.length_erase_le

/-- After a wake has stored ledgers, exactly one message in flight expects the next
ledger; and only a wake from outside the chain that stores ledgers adds a message.  What a
wake goes by is what `reconcile` reports. -/
theorem oneChain_of_run (fromStr : String → Option Expect) (bucket : String) :
    (∀ s₀ s₁ s₂ s₃ : Pacing, s₀.inFlight = [] →
      ReflTransGen (CleanStep fromStr bucket) s₀ s₁ → CleanStep fromStr bucket s₁ s₂ →
      s₁.newest < s₂.newest → ReflTransGen (CleanStep fromStr bucket) s₂ s₃ →
      s₃.inFlight.countP (·.expect = s₃.newest + 1) = 1) ∧
    (∀ (s : Pacing) (wake : Wake) (outcome : Outcome) (now : ℤ), Arrives s wake →
      (paced bucket s wake outcome now).inFlight.length ≤ s.inFlight.length ∨
        (wake = .keepalive ∧ s.newest < (paced bucket s wake outcome now).newest)) ∧
    ∀ {Row : Type} {E : Environment ((clickHouse Row).sum handlerInterface)}
      (state : HandlerState) (budget : ℕ) (s : E.State),
      UpholdsTry E (fun _ => True) (reconcile state budget : Handler Row Reconciled)
        (fun done _ => ∃ maxSeq persisted, done = reconciledFrom maxSeq state.bucket persisted)
        (fun _ => True) s := by
  refine ⟨?_, fun s wake outcome now => length_inFlight_paced wake outcome now,
    reconcile_report⟩
  intro s₀ s₁ s₂ s₃ hempty hbefore hstep hstored hafter
  have hstart : Bounded s₀ := by
    intro e he
    rw [hempty] at he
    cases he
  have hbounded := bounded_run hstart hbefore
  exact (oneChain_run (oneChain_of_stored hbounded hstep hstored) (bounded_step hbounded hstep)
    hafter).2

/-- The two chain messages of the runs below. -/
def parsePinned (body : String) : Option Expect :=
  if body = "\x7b\"expect\":102,\"attempt\":0\x7d" then some ⟨102, 0⟩
  else if body = "\x7b\"expect\":102,\"attempt\":1\x7d" then some ⟨102, 1⟩
  else none

/-- A keepalive stores ledger 101; one look is empty, the next stores 102. -/
theorem oneChain_of_run_keepalive :
    (paced "bucket" (paced "bucket" (paced "bucket" ⟨100, []⟩ .keepalive (.finished 1 1000) 1002)
      (.chain ⟨102, 0⟩) (.finished 0 0) 1008) (.chain ⟨102, 1⟩) (.finished 1 1005) 1009
      ).inFlight.countP (·.expect = 103) = 1 := by
  have harrives : ∀ {s : Pacing} {e : Expect}, e ∈ s.inFlight → Arrives s (.chain e) := by
    intro s e he e' heq
    obtain rfl := Wake.chain.inj heq
    exact he
  have hstore : CleanStep parsePinned "bucket" ⟨100, []⟩
      (paced "bucket" ⟨100, []⟩ .keepalive (.finished 1 1000) 1002) :=
    ⟨none, .finished 1 1000, 1002, fun _ h => (nomatch h), fun _ h => (nomatch h), rfl⟩
  have hlook : CleanStep parsePinned "bucket"
      (paced "bucket" ⟨100, []⟩ .keepalive (.finished 1 1000) 1002)
      (paced "bucket" (paced "bucket" ⟨100, []⟩ .keepalive (.finished 1 1000) 1002)
        (.chain ⟨102, 0⟩) (.finished 0 0) 1008) :=
    ⟨some "\x7b\"expect\":102,\"attempt\":0\x7d", .finished 0 0, 1008, harrives (by decide),
      fun _ h => (nomatch h), rfl⟩
  have hfound : CleanStep parsePinned "bucket"
      (paced "bucket" (paced "bucket" ⟨100, []⟩ .keepalive (.finished 1 1000) 1002)
        (.chain ⟨102, 0⟩) (.finished 0 0) 1008)
      (paced "bucket" (paced "bucket" (paced "bucket" ⟨100, []⟩ .keepalive (.finished 1 1000) 1002)
        (.chain ⟨102, 0⟩) (.finished 0 0) 1008) (.chain ⟨102, 1⟩) (.finished 1 1005) 1009) :=
    ⟨some "\x7b\"expect\":102,\"attempt\":1\x7d", .finished 1 1005, 1009, harrives (by decide),
      fun _ h => (nomatch h), rfl⟩
  exact (oneChain_of_run parsePinned "bucket").1 _ _ _ _ rfl .refl hstore (by decide)
    (ReflTransGen.head hlook (.single hfound))

/-- A wake that fails after it stored ledger 102 queues nothing: its own message, which
expects 102, is the only one left. -/
theorem not_oneChain_failedWake :
    ¬ ∀ (fromStr : String → Option Expect) (bucket : String) (s₀ s₁ s₂ s₃ : Pacing),
      s₀.inFlight = [] → ReflTransGen (Step fromStr bucket) s₀ s₁ → Step fromStr bucket s₁ s₂ →
      s₁.newest < s₂.newest → ReflTransGen (Step fromStr bucket) s₂ s₃ →
      ∃ e ∈ s₃.inFlight, e.expect = s₃.newest + 1 := by
  intro hclaim
  have hstore : Step parsePinned "bucket" ⟨100, []⟩ ⟨101, [⟨102, 0⟩]⟩ :=
    ⟨none, .finished 1 1000, 1002, fun _ h => (nomatch h), rfl⟩
  have hfailed : Step parsePinned "bucket" ⟨101, [⟨102, 0⟩]⟩ ⟨102, [⟨102, 0⟩]⟩ := by
    refine ⟨some "\x7b\"expect\":102,\"attempt\":0\x7d", .failed 1, 1008, ?_, rfl⟩
    intro e heq
    obtain rfl := Wake.chain.inj heq
    exact List.mem_singleton_self _
  obtain ⟨e, he, hnext⟩ :=
    hclaim parsePinned "bucket" _ _ _ _ rfl .refl hstore (by decide) (.single hfailed)
  obtain rfl := List.mem_singleton.mp he
  exact absurd hnext (by decide)

end SorobanExplorer.Indexer.LakePacing
