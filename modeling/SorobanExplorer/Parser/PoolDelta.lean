import SorobanExplorer.Parser.PoolOperations
import Mathlib.Algebra.Group.Prod
import Mathlib.Algebra.Ring.Int.Defs
import Mathlib.Data.List.Induction
import Mathlib.Tactic.NormNum

/-!
# The reserves an operation moved

The changes an operation makes to a pool begin with the pool's image, or with its creation,
and every update and removal follows an image (`Chained`).  The difference that is written
takes the first image for the reserves before the operation, the last write for those after
it, and remembers a removal whatever follows.  So it is the exact difference unless the
operation created the pool and went on with it, or removed it and created it again, with
reserves to show for it (`EndsShown`).

* `poolEnds_eq` reads the three notes off the pool's own changes;
* `trace_cases` is the invariant of a chained list: an image shows the last write, or
  nothing was written;
* `endsRead_iff` compares what is taken for the two ends with the ends.
-/

namespace SorobanExplorer

/-! ## The changes of a pool -/

inductive PoolChange
  | state (pool : LiquidityPoolEntry)
  | created (pool : LiquidityPoolEntry)
  | updated (pool : LiquidityPoolEntry)
  | restored (pool : LiquidityPoolEntry)
  | removed
  deriving DecidableEq

/-- A change, if it is one of the pool. -/
def poolChange (poolId : Hash) : LedgerEntryChange → Option PoolChange
  | .state entry => (poolConstantProduct entry poolId).map .state
  | .created entry => (poolConstantProduct entry poolId).map .created
  | .updated entry => (poolConstantProduct entry poolId).map .updated
  | .restored entry => (poolConstantProduct entry poolId).map .restored
  | .removed (.liquidityPool id) => if id = poolId then some .removed else none
  | .removed _ => none

/-- The pool's own changes, in order. -/
def poolChanges (poolId : Hash) (changes : List LedgerEntryChange) : List PoolChange :=
  changes.filterMap (poolChange poolId)

namespace PoolChange

/-- The pool as a change shows it. -/
def pool : PoolChange → Option LiquidityPoolEntry
  | .state pool | .created pool | .updated pool | .restored pool => some pool
  | .removed => none

/-- The image before a change. -/
def image : PoolChange → Option LiquidityPoolEntry
  | .state pool => some pool
  | _ => none

/-- The pool as it was written. -/
def written : PoolChange → Option LiquidityPoolEntry
  | .created pool | .updated pool | .restored pool => some pool
  | _ => none

end PoolChange

/-- What the last change of a pool leaves. -/
inductive PoolTrace
  | unseen
  | imaged (pool : LiquidityPoolEntry)
  | written (pool : LiquidityPoolEntry)
  | gone

def PoolTrace.after : PoolChange → PoolTrace
  | .state pool => .imaged pool
  | .created pool | .updated pool | .restored pool => .written pool
  | .removed => .gone

/-- Whether a change may come next: an image shows the pool as it is, an update and a
removal follow an image, and a pool that is not there can be created. -/
def PoolTrace.Allows : PoolTrace → PoolChange → Prop
  | .unseen, .state _ | .unseen, .created _ | .gone, .created _ => True
  | .imaged pool, .state image | .written pool, .state image => image = pool
  | .imaged _, .updated _ | .imaged _, .removed => True
  | _, _ => False

/-- Whether a list of changes may follow for a pool. -/
def PoolTrace.Chained : PoolTrace → List PoolChange → Prop
  | _, [] => True
  | trace, change :: rest => trace.Allows change ∧ Chained (.after change) rest

/-- The changes of one operation to a pool.  The two assets are in the pool's id. -/
structure PoolChain (own : List PoolChange) : Prop where
  chained : PoolTrace.unseen.Chained own
  assets : ∀ change ∈ own, ∀ pool ∈ change.pool, ∀ other ∈ own, ∀ pool' ∈ other.pool,
    pool.assetA = pool'.assetA ∧ pool.assetB = pool'.assetB
  reserves : ∀ change ∈ own, ∀ pool ∈ change.pool,
    0 ≤ pool.reserveA.toInt ∧ 0 ≤ pool.reserveB.toInt

/-- The reserves of a pool; none for no pool. -/
def reservesOf (pool : Option LiquidityPoolEntry) : ℤ × ℤ :=
  pool.elim (0, 0) fun pool => (pool.reserveA.toInt, pool.reserveB.toInt)

/-- The pool before the operation: its image, if the operation found it. -/
def poolBefore : List PoolChange → Option LiquidityPoolEntry
  | .state pool :: _ => some pool
  | _ => none

/-- The pool after the operation, if it is there. -/
def poolAfter (own : List PoolChange) : Option LiquidityPoolEntry :=
  own.getLast?.bind PoolChange.pool

/-- The exact difference, if there is one. -/
def exactDelta [Crates] (poolId : Hash) (own : List PoolChange) : Option Json :=
  (own.findSome? PoolChange.pool).bind fun pool =>
    let delta := reservesOf (poolAfter own) - reservesOf (poolBefore own)
    if delta = 0 then none else some (poolDelta poolId pool delta.1 delta.2)

/-- The operation did not create the pool and show it with reserves later, and did not
leave a pool with reserves that it had removed. -/
def EndsShown (own : List PoolChange) : Prop :=
  (poolBefore own = none → reservesOf (own.findSome? PoolChange.image) = 0) ∧
    (.removed ∈ own → reservesOf (poolAfter own) = 0)

/-! ## What is noted -/

theorem poolChange_written {poolId : Hash} {change : LedgerEntryChange} {ends : PoolEnds} :
    ends.note poolId change = ⟨ends.before.or ((poolChange poolId change).bind PoolChange.image),
      ((poolChange poolId change).bind PoolChange.written).or ends.after,
      ends.removed || poolChange poolId change = some .removed⟩ := by
  cases change with
  | state entry | created entry | updated entry | restored entry =>
      cases hpool : poolConstantProduct entry poolId <;>
        simp [PoolEnds.note, poolChange, hpool, PoolChange.image, PoolChange.written]
  | removed key =>
      cases key with
      | liquidityPool id =>
          by_cases hid : id = poolId <;>
            simp [PoolEnds.note, poolChange, hid, PoolChange.image, PoolChange.written]
      | _ => simp [PoolEnds.note, poolChange]

theorem poolEnds_eq (changes : List LedgerEntryChange) (poolId : Hash) :
    poolEnds changes poolId = ⟨(poolChanges poolId changes).findSome? PoolChange.image,
      ((poolChanges poolId changes).filterMap PoolChange.written).getLast?,
      decide (.removed ∈ poolChanges poolId changes)⟩ := by
  induction changes using List.reverseRecOn with
  | nil => rfl
  | append_singleton changes change ih =>
      have hfold : poolEnds (changes ++ [change]) poolId =
          (poolEnds changes poolId).note poolId change := by
        rw [poolEnds, List.foldl_append]
        rfl
      rw [hfold, ih, poolChange_written]
      simp only [poolChanges, List.filterMap_append, List.findSome?_append, List.getLast?_append,
        List.mem_append]
      cases hchange : poolChange poolId change with
      | none => simp [hchange]
      | some own => cases own <;> simp [hchange, PoolChange.image, PoolChange.written]

/-! ## Chained changes -/

/-- What a list of changes leaves. -/
def traceOf (own : List PoolChange) : PoolTrace :=
  own.getLast?.elim .unseen PoolTrace.after

theorem chained_concat {trace : PoolTrace} {own : List PoolChange} {change : PoolChange} :
    trace.Chained (own ++ [change]) ↔
      trace.Chained own ∧ (own.getLast?.elim trace PoolTrace.after).Allows change := by
  induction own generalizing trace with
  | nil => simp [PoolTrace.Chained]
  | cons first rest ih =>
      rw [List.cons_append, PoolTrace.Chained, PoolTrace.Chained, ih, and_assoc]
      cases rest with
      | nil => rfl
      | cons second rest => rfl

/-- What was last written. -/
def lastWritten (own : List PoolChange) : Option LiquidityPoolEntry :=
  (own.filterMap PoolChange.written).getLast?

/-- The invariant of a chained list: its images show the last write, or the pool as it was
found. -/
theorem trace_cases {own : List PoolChange} (h : PoolTrace.unseen.Chained own) :
    match traceOf own with
    | .unseen => own = []
    | .imaged pool => lastWritten own = some pool ∨
        lastWritten own = none ∧ own.findSome? PoolChange.image = some pool ∧ .removed ∉ own
    | .written pool => lastWritten own = some pool
    | .gone => .removed ∈ own := by
  -- by the last change: a state image only repeats what stands there
  induction own using List.reverseRecOn with
  | nil => rfl
  | append_singleton own change ih =>
      obtain ⟨hown, hallows⟩ := chained_concat.mp h
      have ih := ih hown
      have hlast : traceOf (own ++ [change]) = .after change := by simp [traceOf]
      have hwritten : lastWritten (own ++ [change]) = change.written.or (lastWritten own) := by
        simp only [lastWritten, List.filterMap_append, List.getLast?_append]
        cases change <;> simp [PoolChange.written]
      change (traceOf own).Allows change at hallows
      rw [hlast, hwritten]
      cases change with
      | created pool | updated pool | restored pool => rfl
      | removed => exact List.mem_append_right _ List.mem_cons_self
      | state image =>
          change (none : Option LiquidityPoolEntry).or _ = _ ∨ _
          rw [Option.none_or, List.findSome?_append, List.mem_append]
          cases htrace : traceOf own with
          | unseen =>
              rw [htrace] at ih
              subst ih
              exact .inr ⟨rfl, rfl, by simp⟩
          | imaged pool =>
              rw [htrace] at ih hallows
              obtain rfl : image = pool := hallows
              rcases ih with hwrote | ⟨hnone, hfirst, hkept⟩
              · exact .inl hwrote
              · refine .inr ⟨hnone, by rw [hfirst]; rfl, ?_⟩
                simpa using hkept
          | written pool =>
              rw [htrace] at ih hallows
              obtain rfl : image = pool := hallows
              exact .inl ih
          | gone =>
              rw [htrace] at hallows
              exact hallows.elim

/-- An operation shows the pool after it, or removed it last. -/
theorem poolAfter_eq {own : List PoolChange} (h : PoolTrace.unseen.Chained own)
    (hkept : .removed ∉ own) :
    poolAfter own = (lastWritten own).or (own.findSome? PoolChange.image) := by
  have hcases := trace_cases h
  cases hlast : own.getLast? with
  | none =>
      rw [List.getLast?_eq_none_iff] at hlast
      subst hlast
      rfl
  | some change =>
      have htrace : traceOf own = .after change := by simp [traceOf, hlast]
      have hafter : poolAfter own = change.pool := by simp [poolAfter, hlast]
      rw [htrace] at hcases
      rw [hafter]
      cases change with
      | created pool | updated pool | restored pool =>
          rw [show lastWritten own = some pool from hcases]
          rfl
      | removed => exact absurd hcases hkept
      | state image =>
          rcases hcases with hwrote | ⟨hnone, hfirst, -⟩
          · rw [hwrote]
            rfl
          · rw [hnone, hfirst]
            rfl

/-- A list that begins with no image begins with a creation. -/
theorem poolBefore_cases {own : List PoolChange} (h : PoolTrace.unseen.Chained own) :
    own = [] ∨ poolBefore own = own.findSome? PoolChange.image ∧ poolBefore own ≠ none ∨
      poolBefore own = none ∧ ∃ pool, lastWritten own = some pool := by
  cases own with
  | nil => exact .inl rfl
  | cons first rest =>
      cases first with
      | state pool => exact .inr (.inl ⟨rfl, nofun⟩)
      | created pool =>
          refine .inr (.inr ⟨rfl, Option.isSome_iff_exists.mp ?_⟩)
          simp [lastWritten, PoolChange.written, List.getLast?_cons]
      | updated pool | restored pool | removed => exact h.1.elim

/-! ## What is taken for the ends -/

theorem toInt_sub_of_nonneg {a b : Int64} (ha : 0 ≤ a.toInt) (hb : 0 ≤ b.toInt) :
    (a - b).toInt = a.toInt - b.toInt := by
  have hahigh := a.toInt_lt
  have hbhigh := b.toInt_lt
  rw [Int64.toInt_sub]
  exact Int.bmod_eq_of_le (by norm_num; omega) (by norm_num; omega)

/-- The reserves taken for those after the operation. -/
def endRead (own : List PoolChange) : ℤ × ℤ :=
  if .removed ∈ own then 0 else reservesOf (poolAfter own)

theorem reserves_nonneg {own : List PoolChange} (h : PoolChain own) {pool : Option LiquidityPoolEntry}
    (hpool : ∀ entry ∈ pool, ∃ change ∈ own, entry ∈ change.pool) :
    0 ≤ (reservesOf pool).1 ∧ 0 ≤ (reservesOf pool).2 := by
  cases pool with
  | none => exact ⟨Int.le_refl _, Int.le_refl _⟩
  | some entry =>
      obtain ⟨change, hchange, hentry⟩ := hpool entry rfl
      exact h.reserves change hchange entry hentry

theorem mem_of_image {own : List PoolChange} {entry : LiquidityPoolEntry}
    (h : entry ∈ own.findSome? PoolChange.image) : ∃ change ∈ own, entry ∈ change.pool := by
  obtain ⟨change, hchange, himage⟩ := List.exists_of_findSome?_eq_some h
  refine ⟨change, hchange, ?_⟩
  cases change <;> cases himage
  rfl

theorem mem_of_lastWritten {own : List PoolChange} {entry : LiquidityPoolEntry}
    (h : entry ∈ lastWritten own) : ∃ change ∈ own, entry ∈ change.pool := by
  obtain ⟨change, hchange, hwritten⟩ := List.mem_filterMap.mp (List.mem_of_getLast? h)
  refine ⟨change, hchange, ?_⟩
  cases change <;> cases hwritten <;> rfl

theorem mem_of_poolAfter {own : List PoolChange} {entry : LiquidityPoolEntry}
    (h : entry ∈ poolAfter own) : ∃ change ∈ own, entry ∈ change.pool := by
  obtain ⟨change, hlast, hpool⟩ := Option.bind_eq_some_iff.mp h
  exact ⟨change, List.mem_of_getLast? hlast, hpool⟩

section

variable {changes : List LedgerEntryChange} {poolId : Hash}
  (hchain : PoolChain (poolChanges poolId changes))

include hchain

/-- Only a list without changes does not show the pool. -/
theorem poolChanges_eq_nil (h : (poolChanges poolId changes).findSome? PoolChange.pool = none) :
    poolChanges poolId changes = [] := by
  cases hlist : poolChanges poolId changes with
  | nil => rfl
  | cons first rest =>
      have hshown := List.findSome?_eq_none_iff.mp h first (by rw [hlist]; exact List.mem_cons_self)
      have hchained := hchain.chained
      rw [hlist] at hchained
      cases first with
      | removed => exact hchained.1.elim
      | _ => cases hshown

/-- The reserves that are subtracted, and their exact difference. -/
theorem reservesAfter_sub {after : Int64 × Int64}
    (hafter : after ∈ (poolEnds changes poolId).reservesAfter) :
    (after.1 - (poolEnds changes poolId).reservesBefore.1).toInt =
        after.1.toInt - (poolEnds changes poolId).reservesBefore.1.toInt ∧
      (after.2 - (poolEnds changes poolId).reservesBefore.2).toInt =
        after.2.toInt - (poolEnds changes poolId).reservesBefore.2.toInt := by
  rw [poolEnds_eq] at hafter ⊢
  set own := poolChanges poolId changes
  have hbefore : 0 ≤ (PoolEnds.reservesBefore ⟨own.findSome? PoolChange.image, lastWritten own,
        decide (.removed ∈ own)⟩).1.toInt ∧
      0 ≤ (PoolEnds.reservesBefore ⟨own.findSome? PoolChange.image, lastWritten own,
        decide (.removed ∈ own)⟩).2.toInt := by
    have hnonneg := reserves_nonneg hchain fun entry h => mem_of_image h
    cases himage : own.findSome? PoolChange.image with
    | none => exact ⟨Int.le_refl _, Int.le_refl _⟩
    | some entry =>
        rw [himage] at hnonneg
        exact hnonneg
  have hnonneg : 0 ≤ after.1.toInt ∧ 0 ≤ after.2.toInt := by
    unfold PoolEnds.reservesAfter at hafter
    split_ifs at hafter
    · cases hafter
      exact ⟨Int.le_refl _, Int.le_refl _⟩
    · obtain ⟨entry, hentry, rfl⟩ := Option.map_eq_some_iff.mp hafter
      obtain ⟨change, hchange, hpool⟩ := mem_of_lastWritten hentry
      exact hchain.reserves change hchange entry hpool
  exact ⟨toInt_sub_of_nonneg hnonneg.1 hbefore.1, toInt_sub_of_nonneg hnonneg.2 hbefore.2⟩

/-- What is written is the difference of what is taken for the ends. -/
theorem poolDeltaDetails_eq [Crates] :
    poolDeltaDetails changes poolId =
      ((poolChanges poolId changes).findSome? PoolChange.pool).bind fun pool =>
        let delta := endRead (poolChanges poolId changes) -
          reservesOf ((poolChanges poolId changes).findSome? PoolChange.image)
        if delta = 0 then none else some (poolDelta poolId pool delta.1 delta.2) := by
  have hexact := @reservesAfter_sub changes poolId hchain
  unfold poolDeltaDetails
  rw [poolEnds_eq] at hexact ⊢
  set own := poolChanges poolId changes with hown
  cases hfirst : own.findSome? PoolChange.pool with
  | none =>
      have hnil : own = [] := poolChanges_eq_nil hchain hfirst
      rw [hnil]
      rfl
  | some shown =>
      obtain ⟨change, hchange, hshown⟩ := List.exists_of_findSome?_eq_some hfirst
      obtain ⟨pool, hpool, hmem⟩ : ∃ pool,
          (lastWritten own).or (own.findSome? PoolChange.image) = some pool ∧
            ∃ change ∈ own, pool ∈ change.pool := by
        cases hwritten : lastWritten own with
        | some pool => exact ⟨pool, rfl, mem_of_lastWritten hwritten⟩
        | none =>
            cases himage : own.findSome? PoolChange.image with
            | some pool => exact ⟨pool, rfl, mem_of_image himage⟩
            | none =>
                rcases poolBefore_cases hchain.chained with hnil | ⟨hsame, hne⟩ | ⟨-, pool, hwrote⟩
                · rw [hnil] at hchange
                  cases hchange
                · exact absurd (hsame.trans himage) hne
                · rw [hwritten] at hwrote
                  cases hwrote
      obtain ⟨other, hother, hpoolShown⟩ := hmem
      obtain ⟨hassetA, hassetB⟩ := hchain.assets other hother pool hpoolShown change hchange shown
        hshown
      have hjson : ∀ deltaA deltaB, poolDelta poolId pool deltaA deltaB =
          poolDelta poolId shown deltaA deltaB := fun deltaA deltaB => by
        simp only [poolDelta, hassetA, hassetB]
      have hwrittenDef : (own.filterMap PoolChange.written).getLast? = lastWritten own := rfl
      rw [hwrittenDef] at hexact ⊢
      rw [Option.bind_some, endRead]
      have hbefore : reservesOf (own.findSome? PoolChange.image) =
          ((PoolEnds.reservesBefore ⟨own.findSome? PoolChange.image, lastWritten own,
              decide (.removed ∈ own)⟩).1.toInt,
            (PoolEnds.reservesBefore ⟨own.findSome? PoolChange.image, lastWritten own,
              decide (.removed ∈ own)⟩).2.toInt) := by
        cases own.findSome? PoolChange.image <;> rfl
      have hafter : PoolEnds.reservesAfter ⟨own.findSome? PoolChange.image, lastWritten own,
            decide (.removed ∈ own)⟩ =
          if .removed ∈ own then some (0, 0)
          else (lastWritten own).map fun pool => (pool.reserveA, pool.reserveB) := by
        simp only [PoolEnds.reservesAfter, decide_eq_true_eq]
      set ends : PoolEnds := ⟨own.findSome? PoolChange.image, lastWritten own,
        decide (.removed ∈ own)⟩ with hends
      have hor : ends.after.or ends.before = some pool := hpool
      simp only [hor, Option.bind_eq_bind, Option.bind_some]
      cases hread : ends.reservesAfter with
      | none =>
          -- the pool was only read
          rw [hafter] at hread
          split_ifs at hread with hremoved
          have hnone : lastWritten own = none := Option.map_eq_none_iff.mp hread
          rw [if_neg hremoved, poolAfter_eq hchain.chained hremoved, hnone, Option.none_or, sub_self,
            if_pos rfl]
          rfl
      | some after =>
          obtain ⟨hsubA, hsubB⟩ := hexact hread
          have hend : (if .removed ∈ own then (0 : ℤ × ℤ) else reservesOf (poolAfter own)) =
              (after.1.toInt, after.2.toInt) := by
            rw [hafter] at hread
            split_ifs at hread ⊢ with hremoved
            · cases hread
              rfl
            · obtain ⟨last, hlast, rfl⟩ := Option.map_eq_some_iff.mp hread
              rw [poolAfter_eq hchain.chained hremoved, hlast]
              rfl
          rw [hend, hbefore, Prod.mk_sub_mk, ← hsubA, ← hsubB]
          have hzero : (after.1 - ends.reservesBefore.1 = 0 ∧ after.2 - ends.reservesBefore.2 = 0) ↔
              (((after.1 - ends.reservesBefore.1).toInt, (after.2 - ends.reservesBefore.2).toInt) :
                ℤ × ℤ) = 0 := by
            rw [Prod.mk_eq_zero, ← Int64.toInt_inj, ← Int64.toInt_inj]
            rfl
          rw [Option.bind_some]
          change (if after.1 - ends.reservesBefore.1 = 0 ∧ after.2 - ends.reservesBefore.2 = 0 then
            none else some _) = _
          rw [if_congr hzero rfl rfl, hjson]

/-- What is taken for the ends differs as the ends do exactly if both are shown. -/
theorem endsRead_iff :
    endRead (poolChanges poolId changes) -
        reservesOf ((poolChanges poolId changes).findSome? PoolChange.image) =
      reservesOf (poolAfter (poolChanges poolId changes)) -
        reservesOf (poolBefore (poolChanges poolId changes)) ↔
    EndsShown (poolChanges poolId changes) := by
  set own := poolChanges poolId changes
  have hafter := reserves_nonneg hchain fun entry h => mem_of_poolAfter h
  have himage := reserves_nonneg hchain fun entry h => mem_of_image h
  have hstart : reservesOf (poolBefore own) =
      if poolBefore own = none then 0 else reservesOf (own.findSome? PoolChange.image) := by
    split_ifs with hnone
    · rw [hnone]
      rfl
    · rcases poolBefore_cases hchain.chained with hnil | ⟨hsame, -⟩ | ⟨hnone', -⟩
      · exact absurd (congrArg poolBefore hnil) hnone
      · rw [hsame]
      · exact absurd hnone' hnone
  rw [hstart, endRead, EndsShown]
  generalize reservesOf (poolAfter own) = after at hafter ⊢
  generalize reservesOf (own.findSome? PoolChange.image) = image at himage ⊢
  obtain ⟨afterA, afterB⟩ := after
  obtain ⟨imageA, imageB⟩ := image
  dsimp only at hafter himage
  -- both errors lower the difference, so they do not cancel
  split_ifs with hremoved hnone hnone <;>
    simp only [hremoved, hnone, Prod.ext_iff, Prod.fst_sub, Prod.snd_sub, Prod.fst_zero,
      Prod.snd_zero, true_implies, false_implies, true_and, and_true] <;>
    omega

/-- **The difference telescopes exactly when the ends are shown**, and no subtraction
overflows. -/
theorem poolDeltaDetails_eq_exactDelta_iff [Crates] :
    (∀ after ∈ (poolEnds changes poolId).reservesAfter,
      (after.1 - (poolEnds changes poolId).reservesBefore.1).toInt =
          after.1.toInt - (poolEnds changes poolId).reservesBefore.1.toInt ∧
        (after.2 - (poolEnds changes poolId).reservesBefore.2).toInt =
          after.2.toInt - (poolEnds changes poolId).reservesBefore.2.toInt) ∧
    (poolDeltaDetails changes poolId = exactDelta poolId (poolChanges poolId changes) ↔
      EndsShown (poolChanges poolId changes)) := by
  refine ⟨fun after h => reservesAfter_sub hchain h, ?_⟩
  rw [← endsRead_iff hchain, poolDeltaDetails_eq hchain, exactDelta]
  cases hfirst : (poolChanges poolId changes).findSome? PoolChange.pool with
  | none =>
      rw [poolChanges_eq_nil hchain hfirst]
      simp [endRead, poolAfter, poolBefore, reservesOf]
  | some pool =>
      rw [Option.bind_some, Option.bind_some]
      generalize endRead _ - _ = read
      generalize reservesOf _ - _ = difference
      dsimp only
      constructor
      · intro h
        split_ifs at h with hread hdifference hdifference
        · rw [hread, hdifference]
        · simp only [poolDelta, Option.some.injEq, Json.obj.injEq, List.cons.injEq, Prod.mk.injEq,
            Json.num.injEq, true_and, and_true] at h
          exact Prod.ext h.1 h.2
      · rintro rfl
        rfl

end

/-! ## Two operations -/

private def somePool : Hash := 7

private def poolWith (reserveA reserveB : Int64) : LiquidityPoolEntry :=
  { liquidityPoolId := somePool, assetA := .native
    assetB := .creditAlphanum4 ⟨[85, 83, 68, 67], Crates.length_pinnedCode⟩ Crates.pinnedAccount
    fee := 30, reserveA, reserveB, totalPoolShares := 5, poolSharesTrustLineCount := 1 }

private def entryOf (pool : LiquidityPoolEntry) : LedgerEntry := ⟨70, .liquidityPool pool⟩

/-- Two fills of one operation, with a fill of another pool between them. -/
private def twoFills : List LedgerEntryChange :=
  [.state (entryOf (poolWith 5 20)), .updated (entryOf (poolWith 8 13)),
    .state (entryOf { poolWith 1 1 with liquidityPoolId := 9 }),
    .updated (entryOf { poolWith 2 1 with liquidityPoolId := 9 }),
    .state (entryOf (poolWith 8 13)), .updated (entryOf (poolWith 12 9))]

private def twoFillsOwn : List PoolChange :=
  [.state (poolWith 5 20), .updated (poolWith 8 13), .state (poolWith 8 13),
    .updated (poolWith 12 9)]

private theorem poolChanges_twoFills : poolChanges somePool twoFills = twoFillsOwn := by decide

/-- The fills are written together: 7 of the one came, 11 of the other went. -/
theorem poolDeltaDetails_eq_exactDelta_iff_twoFills :
    let _ : Crates := Crates.pinned
    poolDeltaDetails twoFills somePool = some (poolDelta somePool (poolWith 5 20) 7 (-11)) := by
  let _ : Crates := Crates.pinned
  have hchain : PoolChain (poolChanges somePool twoFills) := by
    rw [poolChanges_twoFills]
    exact ⟨⟨trivial, trivial, rfl, trivial, trivial⟩, by decide, by decide⟩
  have hshown : EndsShown (poolChanges somePool twoFills) := by
    rw [poolChanges_twoFills]
    exact ⟨nofun, by decide⟩
  have hexact := (poolDeltaDetails_eq_exactDelta_iff hchain).2.mpr hshown
  rw [poolChanges_twoFills] at hexact
  exact hexact

/-- A pool that is removed and created again as it was. -/
private def recreated : List LedgerEntryChange :=
  [.state (entryOf (poolWith 5 10)), .removed (.liquidityPool somePool),
    .created (entryOf (poolWith 5 10))]

private theorem poolChanges_recreated : poolChanges somePool recreated =
    [.state (poolWith 5 10), .removed, .created (poolWith 5 10)] := by
  decide

/-- Nothing moved, and the reserves are written as withdrawn. -/
theorem not_exactDelta_recreated :
    let _ : Crates := Crates.pinned
    PoolChain (poolChanges somePool recreated) ∧
      poolDeltaDetails recreated somePool ≠ exactDelta somePool (poolChanges somePool recreated) := by
  let _ : Crates := Crates.pinned
  rw [poolChanges_recreated]
  refine ⟨⟨⟨trivial, trivial, trivial, trivial⟩, by decide, by decide⟩, fun h => ?_⟩
  have hnone : exactDelta somePool
      [.state (poolWith 5 10), .removed, .created (poolWith 5 10)] = none := rfl
  rw [hnone] at h
  cases h

end SorobanExplorer
