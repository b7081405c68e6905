import SorobanExplorer.Backfill.NftReclassify

/-!
# What reclassification keeps

The quarantine is emptied by contract, not by what was copied, so a row is safe only if
the promotion found it (`noneLost_of_timely`).  A row that arrives, or whose contract turns
out to be an NFT contract, between the copy and the deletion is lost.
-/

namespace SorobanExplorer.NftReclassify

open Interaction Replacing Relation

namespace Warehouse

section

variable {s s' : Warehouse} {table : NftTable}

@[simp] theorem withRows_rows_self (rows : List table.1.Row) :
    (s.withRows table rows).rows table = rows :=
  Function.update_self ..

theorem withRows_rows_of_ne {other : NftTable} (h : other ≠ table) (rows : List table.1.Row) :
    (s.withRows table rows).rows other = s.rows other :=
  Function.update_of_ne h ..

/-- The rows of a table hold what other rows of it hold. -/
def Keeps (table : NftTable) (rows rows' : List table.1.Row) : Prop :=
  ∀ row ∈ rows, table.1.Holds rows' row

theorem Keeps.holds {rows rows' : List table.1.Row} (h : Keeps table rows rows')
    {row : table.1.Row} (hrow : table.1.Holds rows row) : table.1.Holds rows' row :=
  Held.trans hrow h

theorem keeps_append (rows added : List table.1.Row) : Keeps table rows (rows ++ added) :=
  fun _ hrow => (held_of_mem hrow).append added

/-- A state after more was written and merged, as far as the tables go.  A row that was
dropped may be written again. -/
structure Grows (s s' : Warehouse) : Prop where
  keeps : ∀ table, Keeps table (s.rows table) (s'.rows table)
  found : s'.found = s.found
  evicted : ∀ kind, ∀ row ∈ s.evicted kind,
    row ∈ s'.evicted kind ∨ kind.Holds (s'.rows (kind, .pending)) row

theorem Grows.withRows {rows : List table.1.Row} (h : Keeps table (s.rows table) rows) :
    s.Grows (s.withRows table rows) := by
  refine ⟨fun other => ?_, rfl, fun _ _ => .inl⟩
  by_cases hother : other = table
  · subst hother
    rw [withRows_rows_self]
    exact h
  · rw [withRows_rows_of_ne hother]
    exact fun _ => held_of_mem

theorem Grows.safe (h : s.Grows s') {kind : NftKind} {row : kind.Row} (hrow : s.Safe kind row) :
    s'.Safe kind row := by
  rcases hrow with hpending | hhot | hevicted
  · exact .inl ((h.keeps (kind, .pending)).holds hpending)
  · exact .inr (.inl ((h.keeps (kind, .hot)).holds hhot))
  · exact (h.evicted kind row hevicted).elim (fun h => .inr (.inr h)) .inl

theorem mem_quarantine {kind : NftKind} {rows : List kind.Row} {row : kind.Row} (h : row ∈ rows) :
    row ∈ (s.quarantine kind rows).rows (kind, .pending) := by
  rw [quarantine, withRows_rows_self]
  exact List.mem_append_right _ h

theorem Grows.quarantine (s : Warehouse) (kind : NftKind) (rows : List kind.Row) :
    s.Grows (s.quarantine kind rows) where
  keeps := (Grows.withRows (keeps_append (s.rows (kind, .pending)) rows)).keeps
  found := rfl
  evicted := by
    intro other row hrow
    by_cases hother : other = kind
    · subst hother
      have hevicted : (s.quarantine other rows).evicted other =
          (s.evicted other).filter (· ∉ rows) := Function.update_self ..
      by_cases hagain : row ∈ rows
      · exact .inr (held_of_mem (mem_quarantine hagain))
      · rw [hevicted]
        exact .inl (List.mem_filter.mpr ⟨hrow, decide_eq_true hagain⟩)
    · have hevicted : (s.quarantine kind rows).evicted other = s.evicted other :=
        Function.update_of_ne hother ..
      exact .inl (hevicted ▸ hrow)

theorem mem_quarantined {kind other : NftKind} {rows : List kind.Row} {row : other.Row}
    (h : row ∈ (s.quarantine kind rows).quarantined other) :
    row ∈ s.quarantined other ∨ ∃ hkind : kind = other, hkind ▸ row ∈ rows := by
  by_cases hkind : kind = other
  · subst hkind
    have hmem : row ∈ s.quarantined kind ++ rows := by simpa [quarantine] using h
    exact (List.mem_append.mp hmem).imp_right fun hnew => ⟨rfl, hnew⟩
  · exact .inl (by simpa [quarantine, Function.update_of_ne (Ne.symm hkind)] using h)

/-- What a promotion found is in the table that is read. -/
def Promoted (kind : NftKind) (s : Warehouse) : Prop :=
  ∀ row ∈ s.found kind, kind.Holds (s.rows (kind, .hot)) row

theorem Promoted.grows {kind : NftKind} (h : s.Promoted kind) (hgrows : s.Grows s') :
    s'.Promoted kind := by
  intro row hrow
  rw [hgrows.found] at hrow
  exact (hgrows.keeps (kind, .hot)).holds (h row hrow)

section

variable [Crates]

theorem Drift.grows (h : s.Drift s') : s.Grows s' := by
  cases h with
  | writeHot ledger kind => exact .withRows (keeps_append _ _)
  | writePending ledger kind => exact .quarantine s kind _
  | writeContracts contractRows => exact ⟨fun _ _ => held_of_mem, rfl, fun _ _ => .inl⟩
  | merge hmerges => exact .withRows hmerges.held

theorem Drift.noneLost (h : s.Drift s') (hs : s.NoneLost) : s'.NoneLost := by
  have hgrows := h.grows
  intro other row hrow
  by_cases hold : row ∈ s.quarantined other
  · exact hgrows.safe (hs other row hold)
  · cases h with
    | writeHot ledger kind => exact absurd hrow hold
    | writePending ledger kind =>
        -- what is new was written to the quarantine
        rcases mem_quarantined hrow with hrow | ⟨rfl, hnew⟩
        · exact absurd hrow hold
        · exact .inl (held_of_mem (mem_quarantine hnew))
    | writeContracts contractRows => exact absurd hrow hold
    | merge hmerges => exact absurd hrow hold

end

/-! ## Statements -/

theorem promote_promoted (kind : NftKind) : (s.promote kind).Promoted kind := by
  intro row hrow
  have hfound : row ∈ s.promotable kind := by
    simpa [promote, markFound, withRows] using hrow
  refine held_of_mem ?_
  rw [promote, withRows_rows_self]
  exact List.mem_append_right _ hfound

/-- A row of a table a deletion is about stays, or goes. -/
theorem holds_delete (types : List ContractType) {row : table.1.Row}
    (h : table.1.Holds (s.rows table) row) :
    table.1.Holds ((s.delete table types).rows table) row ∨
      ∃ other ∈ s.selected table types,
        table.1.key other = table.1.key row ∧ table.1.version row ≤ table.1.version other := by
  have hrows : (s.delete table types).rows table =
      (s.rows table).filter fun row => !s.classified types (table.1.contractId row) :=
    withRows_rows_self _
  rw [hrows]
  exact Held.filter h _

theorem evicted_delete_self (types : List ContractType) :
    (s.delete table types).evicted table.1 = s.evicted table.1 ++
      (s.quarantined table.1).filter (table.1.Holds (s.falsePositives table types) ·) :=
  Function.update_self ..

theorem evicted_delete_of_ne {kind : NftKind} (h : kind ≠ table.1) (types : List ContractType) :
    (s.delete table types).evicted kind = s.evicted kind :=
  Function.update_of_ne h ..

/-- A quarantined row is dropped with the false positive in its place. -/
theorem mem_evicted {types : List ContractType} {row other : table.1.Row}
    (hrow : row ∈ s.quarantined table.1) (hother : other ∈ s.selected table types)
    (hfalse : s.classified [.token, .fungible] (table.1.contractId other) = true)
    (hkey : table.1.key other = table.1.key row)
    (hle : table.1.version row ≤ table.1.version other) :
    row ∈ (s.delete table types).evicted table.1 := by
  have hheld : table.1.Holds (s.falsePositives table types) row :=
    ⟨other, List.mem_filter.mpr ⟨hother, hfalse⟩, hkey, hle⟩
  rw [evicted_delete_self]
  exact List.mem_append_right _ (List.mem_filter.mpr ⟨hrow, decide_eq_true hheld⟩)

/-- A contract of one of three types is of one or of the other two. -/
theorem classified_or {contractId : Int64}
    (h : s.classified [.token, .nft, .fungible] contractId = true) :
    s.classified [.nft] contractId = true ∨ s.classified [.token, .fungible] contractId = true := by
  obtain ⟨row, hrow, hsome⟩ := List.any_eq_true.mp h
  obtain ⟨hid, htype⟩ := of_decide_eq_true hsome
  have hcases : row.contractType = some ContractType.nft.toI16 ∨
      row.contractType ∈ [ContractType.token, .fungible].map (some ·.toI16) := by
    simp only [List.map_cons, List.map_nil, List.mem_cons, List.not_mem_nil, or_false] at htype ⊢
    tauto
  rcases hcases with hnft | hfalse
  · exact .inl (List.any_eq_true.mpr ⟨row, hrow, decide_eq_true ⟨hid, by simp [hnft]⟩⟩)
  · exact .inr (List.any_eq_true.mpr ⟨row, hrow, decide_eq_true ⟨hid, hfalse⟩⟩)

/-- A deletion loses no row if what it takes is a false positive or in the table that is
read. -/
theorem delete_noneLost {types : List ContractType} (hs : s.NoneLost)
    (hcovered : ∀ row ∈ s.selected table types,
      s.classified [.token, .fungible] (table.1.contractId row) = true ∨
        table.1.Holds ((s.delete table types).rows (table.1, .hot)) row) :
    (s.delete table types).NoneLost := by
  intro kind row hrow
  -- a row of the table stays, or what takes its place is covered
  have htier : ∀ tier, kind.Holds (s.rows (kind, tier)) row →
      kind.Holds ((s.delete table types).rows (kind, tier)) row ∨
        (s.delete table types).Safe kind row := by
    intro tier htier
    by_cases htable : (kind, tier) = table
    · subst htable
      rcases @holds_delete s (kind, tier) types _ htier with hstays | ⟨other, hother, hkey, hle⟩
      · exact .inl hstays
      · right
        rcases hcovered other hother with hfalse | hhot
        · exact .inr (.inr (@mem_evicted s (kind, tier) _ _ _ hrow hother hfalse hkey hle))
        · obtain ⟨newer, hnewer, hkey', hle'⟩ := hhot
          exact .inr (.inl ⟨newer, hnewer, hkey'.trans hkey, hle.trans hle'⟩)
    · have hrows : (s.delete table types).rows (kind, tier) = s.rows (kind, tier) :=
        withRows_rows_of_ne htable _
      exact .inl (hrows ▸ htier)
  rcases hs kind row hrow with hpending | hhot | hevicted
  · exact (htier .pending hpending).elim .inl id
  · exact (htier .hot hhot).elim (fun h => .inr (.inl h)) id
  · refine .inr (.inr ?_)
    by_cases hkind : kind = table.1
    · subst hkind
      rw [evicted_delete_self]
      exact List.mem_append_left _ hevicted
    · rwa [evicted_delete_of_ne hkind]

theorem delete_pending_hot (kind other : NftKind) (types : List ContractType) :
    (s.delete (kind, .pending) types).rows (other, .hot) = s.rows (other, .hot) :=
  withRows_rows_of_ne (by simp) _

theorem deletePending_noneLost {kind : NftKind} (hs : s.NoneLost) (hpromoted : s.Promoted kind)
    (htimely : ∀ row ∈ s.promotable kind, kind.Holds (s.found kind) row) :
    (s.delete (kind, .pending) [.token, .nft, .fungible]).NoneLost := by
  refine delete_noneLost hs fun row hrow => ?_
  obtain ⟨hmem, hclassified⟩ := List.mem_filter.mp hrow
  rcases classified_or hclassified with hnft | hfalse
  · right
    rw [delete_pending_hot]
    exact (htimely row (List.mem_filter.mpr ⟨hmem, hnft⟩)).trans hpromoted
  · exact .inl hfalse

theorem deleteLegacy_noneLost {kind : NftKind} (hs : s.NoneLost) :
    (s.delete (kind, .hot) [.token, .fungible]).NoneLost :=
  delete_noneLost hs fun _ hrow => .inl (List.mem_filter.mp hrow).2

end

end Warehouse

/-! ## The pass -/

open Warehouse

variable [Crates] {s : Warehouse} {dryRun : Bool} {done : List NftKind}

/-- A fact that writes and merges leave true. -/
def Lasting (P : Warehouse → Prop) : Prop :=
  ∀ s s', P s → s.Grows s' → P s'

/-- What the pass knows of a state: nothing is lost, and a fact of its own. -/
def Known (P : Warehouse → Prop) (s : Warehouse) : Prop :=
  s.NoneLost ∧ P s

/-- A program of the pass loses nothing; `Q` holds when it succeeds. -/
abbrev Guarantees {α : Type} (p : Sink α) (Q : α → Warehouse → Prop) (s : Warehouse) : Prop :=
  @UpholdsTry sql α BackfillError (environment Timely) NoneLost p Q (fun _ => True) s

theorem settled_of_known {P : Warehouse → Prop} (hP : Lasting P) (hs : Known P s) :
    Settled (environment Timely) NoneLost P s := by
  have hstable : Stable (environment Timely) (Known P) :=
    fun s s' h hdrift => ⟨Drift.noneLost hdrift h.1, hP s s' h.2 (Drift.grows hdrift)⟩
  exact (hstable.settled (fun _ h => h.1) hs).imp fun _ h => h.now.2

theorem guarantees_bind {α β : Type} {p : Sink α} {next : α → Sink β}
    {R : α → Warehouse → Prop} {Q : β → Warehouse → Prop} (h : Guarantees p R s)
    (hnext : ∀ value s, Known (R value) s → Guarantees (next value) Q s) :
    Guarantees (p >>= next) Q s :=
  upholdsTry_bind (upholdsTry_imp (fun value s' hs' => hnext value s' ⟨hs'.inv, hs'.now⟩)
    (fun _ h => h) h)

/-- A statement whose every answer loses nothing. -/
theorem upholds_statement (op : Statement) {P : Warehouse → Prop} {Q : sql.Ans op → Warehouse → Prop}
    (hP : Lasting P) (hQ : ∀ answer, Lasting (Q answer)) (hs : Known P s)
    (hanswer : ∀ s answer s', Known P s → Timely s op → s.Answers op answer s' →
      Known (Q answer) s') :
    Upholds (environment Timely) NoneLost (@Prog.perform sql op) Q s := by
  refine @upholds_perform sql (environment Timely) NoneLost op (Known P) Q s
    ((settled_of_known hP hs).imp fun s' h => ⟨h.inv, h.now⟩) ?_
  rintro s' answer s'' hknown ⟨htimely, hans⟩
  exact settled_of_known (hQ answer) (hanswer s' answer s'' hknown htimely hans)

/-- On a run that deletes, the rows found of the kinds done are in the tables read. -/
def Ready (dryRun : Bool) (done : List NftKind) (s : Warehouse) : Prop :=
  dryRun = false → ∀ kind ∈ done, s.Promoted kind

omit [Crates] in
theorem lasting_ready (dryRun : Bool) (done : List NftKind) : Lasting (Ready dryRun done) :=
  fun _ _ h hgrows hwet kind hkind => (h hwet kind hkind).grows hgrows

/-- What a statement leaves when it succeeds. -/
def OnOk {α : Type} (Q : α → Warehouse → Prop) : Except BackfillError α → Warehouse → Prop
  | .ok value => Q value
  | .error _ => fun _ => True

omit [Crates] in
theorem lasting_onOk {α : Type} {Q : α → Warehouse → Prop} (hQ : ∀ value, Lasting (Q value)) :
    ∀ answer, Lasting (OnOk Q answer)
  | .ok value => hQ value
  | .error _ => fun _ _ _ _ => trivial

omit [Crates] in
theorem ready_markFound {kind : NftKind} (hkind : kind ∉ done) (h : Ready dryRun done s) :
    Ready dryRun done (s.markFound kind) := by
  intro hwet other hother
  have hne : other ≠ kind := fun heq => hkind (heq ▸ hother)
  have hfound : (s.markFound kind).found other = s.found other := Function.update_of_ne hne ..
  rw [Promoted, hfound]
  exact h hwet other hother

omit [Crates] in
theorem ready_promote {kind : NftKind} (hkind : kind ∉ done) (h : Ready dryRun done s) :
    Ready dryRun (kind :: done) (s.promote kind) := by
  intro hwet other hother
  rcases List.mem_cons.mp hother with rfl | hother
  · exact promote_promoted other
  · have hmarked := ready_markFound hkind h hwet other hother
    exact hmarked.grows (Grows.withRows (keeps_append _ _))

omit [Crates] in
theorem promote_noneLost {kind : NftKind} (h : s.NoneLost) : (s.promote kind).NoneLost := by
  have hgrows : (s.markFound kind).Grows (s.promote kind) := Grows.withRows (keeps_append _ _)
  exact fun other row hrow => hgrows.safe (h other row hrow)

theorem guarantees_of_onOk {α : Type} {p : Sink α} {Q : α → Warehouse → Prop}
    (h : Upholds (environment Timely) NoneLost p.run (OnOk Q) s) : Guarantees p Q s := by
  refine upholds_imp ?_ h
  intro answer s' hs'
  cases answer with
  | ok value => exact hs'.now
  | error _ => trivial

theorem countNft_spec {kind : NftKind} (hkind : kind ∉ done) (hs : Known (Ready dryRun done) s) :
    Guarantees (Sink.countNft kind)
      (fun n s => Ready dryRun done s ∧ (n = 0 → s.Promoted kind)) s := by
  refine guarantees_of_onOk (upholds_statement (.countNft kind) (lasting_ready dryRun done)
    (lasting_onOk fun n s s' h hgrows => ?_) hs ?_)
  · exact ⟨lasting_ready dryRun done s s' h.1 hgrows, fun hn => (h.2 hn).grows hgrows⟩
  · intro s answer s' hknown _ hanswer
    cases answer with
    | ok n =>
        obtain ⟨hn, rfl⟩ := hanswer
        refine ⟨hknown.1, ready_markFound hkind hknown.2, fun hzero row hrow => ?_⟩
        have hfound : (s.markFound kind).found kind = s.promotable kind :=
          Function.update_self ..
        have hempty : s.promotable kind = [] := List.length_eq_zero_iff.mp (hn ▸ hzero)
        rw [hfound, hempty] at hrow
        cases hrow
    | error _ =>
        obtain rfl : s' = s := hanswer
        exact ⟨hknown.1, trivial⟩

theorem insertNft_spec {kind : NftKind} (hkind : kind ∉ done) (hs : Known (Ready dryRun done) s) :
    Guarantees (Sink.insertNft kind) (fun _ => Ready dryRun (kind :: done)) s := by
  refine guarantees_of_onOk (upholds_statement (.insertNft kind) (lasting_ready dryRun done)
    (lasting_onOk fun _ => lasting_ready dryRun (kind :: done)) hs ?_)
  intro s answer s' hknown _ hanswer
  cases answer with
  | ok _ =>
      obtain rfl : s' = s.promote kind := hanswer
      exact ⟨promote_noneLost hknown.1, ready_promote hkind hknown.2⟩
  | error _ =>
      rcases hanswer with rfl | rfl
      · exact ⟨promote_noneLost hknown.1, trivial⟩
      · exact ⟨hknown.1, trivial⟩

theorem countIn_spec (table : NftTable) (types : List ContractType)
    (hs : Known (Ready dryRun done) s) :
    Guarantees (Sink.countIn table types) (fun _ => Ready dryRun done) s := by
  refine guarantees_of_onOk (upholds_statement (.countIn table types) (lasting_ready dryRun done)
    (lasting_onOk fun _ => lasting_ready dryRun done) hs ?_)
  intro s answer s' hknown _ hanswer
  cases answer with
  | ok n =>
      obtain ⟨-, rfl⟩ := hanswer
      exact hknown
  | error _ =>
      obtain rfl : s' = s := hanswer
      exact ⟨hknown.1, trivial⟩

/-- A deletion that loses nothing, whether it is acknowledged or not. -/
theorem deleteIn_spec {table : NftTable} {types : List ContractType} {P Q : Warehouse → Prop}
    (hP : Lasting P) (hQ : Lasting Q) (hs : Known P s)
    (hdelete : ∀ s, Known P s → Timely s (.deleteIn table types) →
      Known Q (s.delete table types)) :
    Guarantees (Sink.deleteIn table types) (fun _ => Q) s := by
  refine guarantees_of_onOk (upholds_statement (.deleteIn table types) hP
    (lasting_onOk fun _ => hQ) hs ?_)
  intro s answer s' hknown htimely hanswer
  cases answer with
  | ok _ =>
      obtain rfl : s' = s.delete table types := hanswer
      exact hdelete s hknown htimely
  | error _ =>
      rcases hanswer with rfl | rfl
      · exact ⟨(hdelete s hknown htimely).1, trivial⟩
      · exact ⟨hknown.1, trivial⟩

theorem optimize_spec (table : NftTable) (hs : Known (fun _ => True) s) :
    Guarantees (Sink.optimize table) (fun _ _ => True) s := by
  have htrivial : Lasting fun _ => True := fun _ _ _ _ => trivial
  refine guarantees_of_onOk (upholds_statement (.optimize table) htrivial
    (lasting_onOk fun _ => htrivial) hs ?_)
  intro s answer s' hknown _ hanswer
  obtain ⟨rows, hmerges, rfl⟩ := hanswer
  have hgrows : s.Grows (s.withRows table rows) := .withRows hmerges.held
  refine ⟨fun kind row hrow => hgrows.safe (hknown.1 kind row hrow), ?_⟩
  cases answer <;> trivial

theorem guarantees_pure {α : Type} {value : α} {Q : α → Warehouse → Prop} (hQ : Lasting (Q value))
    (hs : Known (Q value) s) : Guarantees (pure value) Q s :=
  upholdsTry_pure (settled_of_known hQ hs)

/-- A promotion copies what it finds. -/
theorem promoteOrCount_spec {kind : NftKind} (hkind : kind ∉ done)
    (hs : Known (Ready dryRun done) s) :
    Guarantees (promoteOrCount kind dryRun) (fun _ => Ready dryRun (kind :: done)) s := by
  have hready := lasting_ready dryRun (kind :: done)
  refine guarantees_bind (countNft_spec hkind hs) fun n s hs => ?_
  cases dryRun with
  | true => exact guarantees_pure hready ⟨hs.1, fun hwet => by cases hwet⟩
  | false =>
      by_cases hn : n = 0
      · simp only [hn, Bool.false_eq_true, ↓reduceIte]
        refine guarantees_pure hready ⟨hs.1, fun hwet other hother => ?_⟩
        rcases List.mem_cons.mp hother with rfl | hother
        · exact hs.2.2 hn
        · exact hs.2.1 hwet other hother
      · simp only [hn, Bool.false_eq_true, ↓reduceIte]
        refine guarantees_bind (insertNft_spec hkind ⟨hs.1, hs.2.1⟩) fun _ s hs => ?_
        exact guarantees_pure hready hs

/-- What is dropped from a quarantine is promoted or a false positive. -/
theorem dropPending_spec {kind : NftKind} (hkind : kind ∈ done)
    (hs : Known (Ready dryRun done) s) :
    Guarantees (dropOrCount (kind, .pending) [.token, .nft, .fungible] dryRun)
      (fun _ => Ready dryRun done) s := by
  have hready := lasting_ready dryRun done
  refine guarantees_bind (countIn_spec _ _ hs) fun n s hs => ?_
  cases dryRun with
  | true => exact guarantees_pure hready hs
  | false =>
      by_cases hn : n = 0
      · simp only [hn, Bool.false_eq_true, ↓reduceIte]
        exact guarantees_pure hready hs
      · simp only [hn, Bool.false_eq_true, ↓reduceIte]
        refine guarantees_bind (deleteIn_spec hready hready hs fun s hs htimely => ⟨?_, ?_⟩)
          fun _ s hs => guarantees_pure hready hs
        · exact deletePending_noneLost hs.1 (hs.2 rfl kind hkind) htimely
        · intro hwet other hother row hrow
          rw [delete_pending_hot]
          exact hs.2 hwet other hother row hrow

theorem dropLegacy_spec {kind : NftKind} (hs : Known (fun _ => True) s) :
    Guarantees (dropOrCount (kind, .hot) [.token, .fungible] dryRun) (fun _ _ => True) s := by
  have htrivial : Lasting fun _ => True := fun _ _ _ _ => trivial
  have hready : Known (Ready true []) s := ⟨hs.1, fun h => by cases h⟩
  refine guarantees_bind (countIn_spec _ _ hready) fun n s hs => ?_
  have hs : Known (fun _ => True) s := ⟨hs.1, trivial⟩
  cases dryRun with
  | true => exact guarantees_pure htrivial hs
  | false =>
      by_cases hn : n = 0
      · simp only [hn, Bool.false_eq_true, ↓reduceIte]
        exact guarantees_pure htrivial hs
      · simp only [hn, Bool.false_eq_true, ↓reduceIte]
        exact guarantees_bind (deleteIn_spec htrivial htrivial hs fun s hs _ =>
          ⟨deleteLegacy_noneLost hs.1, trivial⟩) fun _ s hs => guarantees_pure htrivial hs

theorem optimizeTouched_spec (touched : List (NftTable × ℕ)) (hs : Known (fun _ => True) s) :
    Guarantees (optimizeTouched touched) (fun _ _ => True) s := by
  have htrivial : Lasting fun _ => True := fun _ _ _ _ => trivial
  refine upholdsTry_imp (fun _ _ _ => trivial) (fun _ h => h)
    (upholdsTry_forM (K := fun _ => Known fun _ => True) (fun _ s h => ?_) (fun _ item s _ h => ?_)
      [] hs)
  · exact (settled_of_known htrivial h).imp fun s hs => ⟨hs.inv, trivial⟩
  · refine upholdsTry_imp (Q := fun _ _ => True) (fun _ _ h => ⟨h.inv, trivial⟩)
      (fun _ h => h) ?_
    by_cases hmutated : item.2 = 0
    · simp only [hmutated, ↓reduceIte]
      exact guarantees_pure htrivial h
    · simp only [hmutated, ↓reduceIte]
      exact optimize_spec item.1 h

/-- The pass loses nothing from a state where nothing is lost. -/
theorem execute_spec (dryRun : Bool) (hs : s.NoneLost) :
    Guarantees (execute dryRun) (fun _ _ => True) s := by
  have htrivial : Lasting fun _ => True := fun _ _ _ _ => trivial
  have hstart : Known (Ready dryRun []) s := ⟨hs, fun _ _ h => by cases h⟩
  refine guarantees_bind (promoteOrCount_spec (by simp) hstart) fun _ s hs => ?_
  refine guarantees_bind (promoteOrCount_spec (by simp) hs) fun _ s hs => ?_
  refine guarantees_bind (dropPending_spec (by simp) hs) fun _ s hs => ?_
  refine guarantees_bind (dropPending_spec (by simp) hs) fun _ s hs => ?_
  refine guarantees_bind (dropLegacy_spec ⟨hs.1, trivial⟩) fun _ s hs => ?_
  refine guarantees_bind (dropLegacy_spec hs) fun _ s hend => ?_
  cases dryRun with
  | true => exact guarantees_pure htrivial hend
  | false =>
      exact guarantees_bind (optimizeTouched_spec _ hend) fun _ s hs =>
        guarantees_pure htrivial hs

omit [Crates] in
theorem noneLost_start (rows : (table : NftTable) → List table.1.Row)
    (contracts : List SorobanContractRow) : (start rows contracts).NoneLost :=
  fun _ _ hrow => .inl (held_of_mem hrow)

/-- Whatever is written between the statements, and whichever of them fail, no quarantined
row is lost as long as each deletion from a quarantine takes as promoted only what the
promotion found. -/
theorem noneLost_of_timely (rows : (table : NftTable) → List table.1.Row)
    (contracts : List SorobanContractRow)
    (c : Config (environment Timely) (Except BackfillError NftReclassifyStats))
    (hreach : Reachable (environment Timely) Passes (start rows contracts) c) : c.env.NoneLost := by
  refine @invariant_of_upholds sql _ (environment Timely) NoneLost Passes ?_ ?_ _
    (noneLost_start rows contracts) c hreach
  · exact fun s s' h hdrift => Drift.noneLost hdrift h
  · rintro _ ⟨dryRun, rfl⟩ s hs
    exact upholds_imp (fun _ _ _ => trivial) (execute_spec dryRun hs)

/-! ## A token written between the copy and the deletion -/

def collectionStrkey : String := "CCSNFZ5RA2EHTSMK2A5ZDXRCAQBYBVFAPJFNWP5BJECLIL4J5UBLLUQG"

/-- An NFT contract. -/
def collectionRow : SorobanContractRow :=
  ⟨-8283827203770785938, collectionStrkey, none, 50, none, some 50, some 2, false, none, none⟩

/-- A token of the contract in a ledger after it. -/
def mintedToken : ExtractedNft := ⟨collectionStrkey, "7", none, none, none, none, some 60, 60⟩

def mintedRow : NftRow := ⟨-8283827203770785938, "7", none, none, none, none, 60⟩

/-- The tables with some tokens in the quarantine. -/
def onlyPending (tokens : List NftRow) : (table : NftTable) → List table.1.Row
  | (.tokens, .pending) => tokens
  | (.tokens, .hot) => []
  | (.ownershipChanges, _) => []

/-- A ledger that mints the token, whose writer could not look up the contract's type. -/
def mintingLedger : LedgerNfts := ⟨[], [mintedToken], [], fun _ => none, fun _ => none⟩

omit [Crates] in
theorem rows_mintingLedger :
    @LedgerNfts.rows Crates.pinned mintingLedger (.tokens, .pending) = [mintedRow] := by
  have hrows : (@nftRows Crates.pinned [] [mintedToken] [] (fun _ => none)
      fun _ => none).nftPendingRows = [mintedRow] := by
    decide
  exact hrows

theorem reachable_statement {admits : Warehouse → Statement → Prop} {initial s s' : Warehouse}
    {p : Prog sql (Except BackfillError NftReclassifyStats)}
    (h : Reachable (environment admits) Passes initial ⟨s, some p⟩) (op : Statement)
    (answer : sql.Ans op) {rest : sql.Ans op → Prog sql (Except BackfillError NftReclassifyStats)}
    (hp : p = .ask op rest) (hadmits : admits s op) (hanswer : s.Answers op answer s') :
    Reachable (environment admits) Passes initial ⟨s', some (rest answer)⟩ :=
  @Reachable.answer sql _ (environment admits) Passes initial s s' p op rest answer h hp
    ⟨hadmits, hanswer⟩

omit [Crates] in
theorem noneLost_of_timely_promoted :
    let _ : Crates := Crates.pinned
    ∃ c : Config (environment Timely) (Except BackfillError NftReclassifyStats),
      c.env.rows (.tokens, .pending) = [] ∧ c.env.quarantined .tokens = [mintedRow] ∧
        c.env.NoneLost := by
  let _ : Crates := Crates.pinned
  have hidle : Reachable (environment Timely) Passes (start (onlyPending [mintedRow])
    [collectionRow]) ⟨start (onlyPending [mintedRow]) [collectionRow], none⟩ := .refl
  have hwake := hidle.tail (.wake ⟨false, rfl⟩)
  have hcount := reachable_statement hwake (.countNft .tokens) (.ok 1) rfl trivial
    ⟨by decide, rfl⟩
  have hinsert := reachable_statement hcount (.insertNft .tokens) (.ok ()) rfl trivial rfl
  have hnone := reachable_statement hinsert (.countNft .ownershipChanges) (.ok (0 : ℕ)) rfl trivial
    ⟨by decide, rfl⟩
  have hdrop := reachable_statement hnone (.countIn (.tokens, .pending) [.token, .nft, .fungible])
    (.ok 1) rfl trivial ⟨by decide, rfl⟩
  have htimely : ∀ row ∈ (((start (onlyPending [mintedRow]) [collectionRow]).promote
      .tokens).markFound .ownershipChanges).promotable .tokens,
      NftKind.Holds .tokens [mintedRow] row := by
    decide
  have hdelete := reachable_statement hdrop
    (.deleteIn (.tokens, .pending) [.token, .nft, .fungible]) (.ok ()) rfl htimely rfl
  exact ⟨_, by rfl, by rfl, noneLost_of_timely _ _ _ hdelete⟩

omit [Crates] in
/-- Nothing was promoted, and the token was deleted. -/
theorem not_noneLost_late :
    let _ : Crates := Crates.pinned
    ∃ c : Config (environment fun _ _ => True) (Except BackfillError NftReclassifyStats),
      Reachable (environment fun _ _ => True) Passes (start (onlyPending []) [collectionRow]) c ∧
        ¬ c.env.NoneLost := by
  let _ : Crates := Crates.pinned
  have hidle : Reachable (environment fun _ _ => True) Passes (start (onlyPending [])
    [collectionRow]) ⟨start (onlyPending []) [collectionRow], none⟩ := .refl
  have hwake := hidle.tail (.wake ⟨false, rfl⟩)
  have htokens := reachable_statement hwake (.countNft .tokens) (.ok (0 : ℕ)) rfl trivial
    ⟨by decide, rfl⟩
  have hchanges := reachable_statement htokens (.countNft .ownershipChanges) (.ok (0 : ℕ)) rfl
    trivial ⟨by decide, rfl⟩
  have hwritten := hchanges.tail (.drift (.writePending mintingLedger .tokens))
  rw [rows_mintingLedger] at hwritten
  have hdrop := reachable_statement hwritten
    (.countIn (.tokens, .pending) [.token, .nft, .fungible]) (.ok 1) rfl trivial ⟨by decide, rfl⟩
  have hdelete := reachable_statement hdrop
    (.deleteIn (.tokens, .pending) [.token, .nft, .fungible]) (.ok ()) rfl trivial rfl
  refine ⟨_, hdelete, fun hlost => ?_⟩
  -- all three lists are empty
  rcases hlost .tokens mintedRow (List.mem_singleton.mpr rfl) with
    ⟨_, hmem, -⟩ | ⟨_, hmem, -⟩ | hmem
  · exact List.not_mem_nil hmem
  · exact List.not_mem_nil hmem
  · exact List.not_mem_nil hmem

end SorobanExplorer.NftReclassify
