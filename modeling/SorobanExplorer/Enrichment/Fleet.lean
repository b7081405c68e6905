import Mathlib.Data.Sigma.Basic
import SorobanExplorer.Enrichment.ServicesSpec

/-!
# The enrichment services at once

Publishers, workers and drains run side by side, any number of each.  Whatever the order of
their requests, and whichever of them fail or are killed, a message is never lost and no row
holds what a page must not show; a published key is never forgotten; and a drain that reports
no failure has tried every key.

A statement about one program is about a *session*: from where the program was started, over
any steps of the others, to where it has returned.
-/

namespace SorobanExplorer.Enrichment

open Interaction Delivery World

section

variable [DataUrls] {role : Role} {s : World × Unit}

/-- Every program of every service keeps the tables sound. -/
theorem programs_spec {p : Prog services role.Result} (hp : role.programs p) (hs : Sound s.1) :
    role.Establishes p (fun _ _ => True) s := by
  cases role with
  | publisher =>
      obtain ⟨kind, candidates, rfl⟩ := hp
      exact establishes_imp (publish_spec kind candidates hs) fun _ _ _ => trivial
  | worker =>
      cases hp
      exact invocation_spec hs
  | drain =>
      obtain ⟨kind, args, fuel, rfl⟩ := hp
      exact upholds_imp (fun _ _ _ => trivial)
        (runDrain_spec (default : kind.Key) False fuel hs False.elim)
  | collections =>
      obtain ⟨limit, rfl⟩ := hp
      exact upholds_imp (fun _ _ _ => trivial) (runNftCollectionName_spec limit hs)

end

variable [DataUrls] {ι : Role → Type}

/-- Any number of services of each role. -/
abbrev Enrichers (ι : Role → Type) : Type := Fleet fun i : Σ role, ι role => enricher i.1

/-- A fleet reached from empty tables, an empty queue and idle services. -/
abbrev Enrichers.Reachable [∀ role, DecidableEq (ι role)] (f : Enrichers ι) : Prop :=
  Fleet.Reachable World.empty (fun _ => ()) f

variable [∀ role, DecidableEq (ι role)] {f f₀ : Enrichers ι}

theorem safe_enrichers (hreach : f.Reachable) :
    Fleet.Safe Sound Grows (fun _ _ => True) (fun _ _ _ => True) f :=
  Fleet.safe_of_reachable moves_tables stable_sound (fun _ _ _ _ _ _ => trivial)
    (fun _ _ hp _ hs _ => programs_spec hp hs) sound_empty (fun _ => trivial) hreach

/-- What a program establishes among the others, where it has returned. -/
theorem established (role : Role) {k : ι role} {p : Prog services role.Result}
    {Q : role.Result → World → Prop} (hreach : f₀.Reachable)
    (hstarted : f₀.running ⟨role, k⟩ = some p)
    (hestablishes : role.Establishes p Q (f₀.shared, f₀.own ⟨role, k⟩))
    (hsession : Fleet.Session ⟨role, k⟩ f₀ f) {value : role.Result}
    (hended : f.running ⟨role, k⟩ = some (.ret value)) : Q value f.shared := by
  have hreturned := Fleet.Safe.session (i := ⟨role, k⟩)
    (R := fun (value : role.Result) (s : World × Unit) => Q value s.1) moves_tables stable_sound
    (fun _ _ _ _ _ _ => trivial) (fun _ _ hp _ hs _ => programs_spec hp hs)
    (safe_enrichers hreach) hstarted hestablishes hsession hended
  exact hreturned

/-- **No message is lost**, whatever the order of the services' requests, and whichever of
them fail or are killed: one the queue took is in it, was given up after its retries, or its
key has a row. -/
theorem message_kept (hreach : f.Reachable) {m : Message String Body}
    (hm : m ∈ f.shared.broker.accepted) {message : EnrichmentMessage}
    (hbody : m.body = some (.ok message)) :
    m ∈ f.shared.broker.queue ∨ m ∈ f.shared.broker.abandoned ∨ f.shared.HasRow message := by
  have hkept := (safe_enrichers hreach).inv.broker.noLoss m hm
  rw [hbody] at hkept
  exact hkept

/-! ### One service of each role -/

/-- The service of a role, where there is one of each. -/
private abbrev the (role : Role) : Σ _ : Role, Unit := ⟨role, ()⟩

/-- One service of each role, and one of them at work. -/
private def atWork (role : Role) (p : Prog services role.Result) (shared : World) :
    Enrichers fun _ => Unit :=
  ⟨shared, fun _ => (), Function.update (fun _ => none) (the role) (some p)⟩

private theorem running_atWork (role : Role) (p : Prog services role.Result) (shared : World) :
    (atWork role p shared).running (the role) = some p := by
  simp only [atWork, Function.update_self]
  rfl

private theorem reachable_atWork (role : Role) {p : Prog services role.Result}
    (hprogram : role.programs p) {shared : World}
    (hdrift : Relation.ReflTransGen World.Drift World.empty shared) :
    (atWork role p shared).Reachable := by
  have hidle : @Enrichers.Reachable _ (fun _ => Unit) _ ⟨shared, fun _ => (), fun _ => none⟩ := by
    induction hdrift with
    | refl => exact .refl
    | tail _ hstep ih => exact ih.tail (.drift hstep)
  exact hidle.tail (.wake (i := the role) rfl hprogram)

private abbrev token : NftKey := ⟨7, "1"⟩

private abbrev tokenMessage : EnrichmentMessage := ⟨.nftTokenUri, token⟩

/-- The tables once the token was indexed. -/
private def indexed : World := { World.empty with base := [tokenMessage] }

omit [DataUrls] in
private theorem drift_indexed : Relation.ReflTransGen World.Drift World.empty indexed :=
  .single (.index tokenMessage)

private def queued : World :=
  { indexed with broker := Broker.empty.accept ⟨"m1", some (.ok tokenMessage)⟩ }

private theorem reachable_publisher :
    (atWork .publisher (publish .nftTokenUri [token]) indexed).Reachable :=
  reachable_atWork .publisher ⟨.nftTokenUri, [token], rfl⟩ drift_indexed

private theorem comes_published : Fleet.Comes (the .publisher)
    (atWork .publisher (publish .nftTokenUri [token]) indexed) queued (.ret ()) := by
  have hstarted := Fleet.Comes.start
    (running_atWork .publisher (publish .nftTokenUri [token]) indexed)
  have hfiltered := hstarted.answer (.unenriched .nftTokenUri [token]) (.error "") rfl
    ⟨rfl, fun missing hmissing => by cases hmissing⟩
  exact hfiltered.answer (.sendMessageBatch [tokenMessage]) (.ok ()) rfl
    (.taken List.not_mem_nil .nil)

/-- No text is a data URL. -/
private abbrev noDataUrls : DataUrls := ⟨fun _ => none⟩

/-- The metadata of the token. -/
private def metadata : Json :=
  .obj [("name", .str " Fox "), ("image", .str "https://a.b/1.png"), ("collection", .str "Foxes")]

private def imageRow : EnrichmentRow :=
  nftRow token ⟨some "Fox", some "https://a.b/1.png", some "Foxes"⟩ 0

/-- The tables and the queue once a worker has dealt with the message. -/
private def delivered : World :=
  { queued.insert [imageRow] (.ok ()) with broker := queued.broker.acknowledge ["m1"] }

omit [DataUrls] in
/-- A worker takes the message, and has the row of the token stored. -/
private theorem reachable_delivered : let _ := noDataUrls
    ∃ f : Enrichers fun _ => Unit, f.Reachable ∧ f.shared = delivered := by
  let _ := noDataUrls
  obtain ⟨f, hsession, hshared, -⟩ := comes_published
  obtain ⟨f₀, hreach, hqueued, hstarted⟩ :=
    Fleet.Reachable.restart (hsession.reachable reachable_publisher) (the .worker)
      (p := invocation) rfl
  have hworker : Fleet.Comes (the .worker) f₀ queued invocation :=
    ⟨f₀, .refl, hqueued.trans hshared, hstarted⟩
  have hreceived := hworker.answer .receive [⟨some "m1", some (.ok tokenMessage)⟩] rfl
    ⟨rfl, fun record hrecord => by
      cases List.mem_singleton.mp hrecord
      exact ⟨⟨"m1", some (.ok tokenMessage)⟩, List.mem_cons_self, rfl, fun id hid => by
        cases hid; rfl⟩⟩
  have hstrkey := hreceived.answer (.contractStrkey 7) (.ok (some (some "C7"))) rfl rfl
  have hresolved := hstrkey.ask (.resolve "C7" "1") (.ok (some metadata)) rfl
    fun _ => ⟨(), trivial⟩
  have hnow := hresolved.ask .nowMs (0 : ℤ) rfl fun _ => ⟨(), trivial⟩
  have hinsert := hnow.answer (.insert imageRow) (.ok ()) rfl rfl
  obtain ⟨f, hsession, hshared, -⟩ := hinsert.answer
    (.respond [⟨some "m1", some (.ok tokenMessage)⟩] (some [])) () rfl
    ⟨["m1"], fun id hid => by
      cases List.mem_singleton.mp hid
      exact ⟨List.not_mem_nil, _, List.mem_cons_self, rfl⟩, rfl⟩
  exact ⟨f, hsession.reachable hreach, hshared⟩

omit [DataUrls] in
/-- The message of the token, which is no longer queued. -/
theorem message_kept_token : ∃ m : Message String Body, m.body = some (.ok tokenMessage) ∧
    m ∈ delivered.broker.accepted ∧ m ∉ delivered.broker.queue ∧
    (m ∈ delivered.broker.queue ∨ m ∈ delivered.broker.abandoned ∨
      delivered.HasRow tokenMessage) := by
  let _ := noDataUrls
  obtain ⟨f, hreach, hshared⟩ := reachable_delivered
  have haccepted : ⟨"m1", some (.ok tokenMessage)⟩ ∈ delivered.broker.accepted :=
    List.mem_cons_self
  refine ⟨_, rfl, haccepted, fun hm => ?_, ?_⟩
  · exact absurd (List.mem_filter.mp hm).2 (by decide)
  · rw [← hshared] at haccepted ⊢
    exact message_kept hreach haccepted rfl

/-- **No key is forgotten.**  Once a batch was published, each of its keys has a row, its
message is queued or was given up, or the queue refused the message. -/
theorem candidate_kept (hreach : f₀.Reachable) {k : ι .publisher} {kind : Kind}
    {candidates : List kind.Key}
    (hstarted : f₀.running ⟨.publisher, k⟩ = some (publish kind candidates))
    (hsession : Fleet.Session ⟨.publisher, k⟩ f₀ f)
    (hended : f.running ⟨.publisher, k⟩ = some (.ret ())) :
    ∀ key ∈ candidates, f.shared.HasRow ⟨kind, key⟩ ∨ ⟨kind, key⟩ ∈ f.shared.refused ∨
      ∃ m, m.body = some (.ok ⟨kind, key⟩) ∧
        (m ∈ f.shared.broker.queue ∨ m ∈ f.shared.broker.abandoned) := by
  intro key hkey
  have htraced : ∀ key ∈ candidates, Traced f.shared ⟨kind, key⟩ :=
    established .publisher (Q := fun _ s => ∀ key ∈ candidates, Traced s ⟨kind, key⟩)
      hreach hstarted (publish_spec kind candidates (safe_enrichers hreach).inv) hsession hended
  rcases htraced key hkey with hrow | ⟨m, hm, hbody⟩ | hrefused
  · exact .inl hrow
  · have hsound := (safe_enrichers (hsession.reachable hreach)).inv
    have hkept := hsound.broker.noLoss m hm
    rw [hbody] at hkept
    rcases hkept with hqueued | habandoned | hrow
    · exact .inr (.inr ⟨m, hbody, .inl hqueued⟩)
    · exact .inr (.inr ⟨m, hbody, .inr habandoned⟩)
    · exact .inl hrow
  · exact .inr (.inl hrefused)

omit [DataUrls] in
theorem candidate_kept_token : queued.HasRow tokenMessage ∨ tokenMessage ∈ queued.refused ∨
    ∃ m, m.body = some (.ok tokenMessage) ∧
      (m ∈ queued.broker.queue ∨ m ∈ queued.broker.abandoned) := by
  let _ := noDataUrls
  obtain ⟨f, hsession, hshared, hended⟩ := comes_published
  rw [← hshared]
  exact candidate_kept reachable_publisher (running_atWork _ _ _) hsession hended token
    List.mem_cons_self

/-! ### A drain of one token -/

private abbrev untriedArgs : DrainArgs := ⟨200, by decide, none, .untried⟩

private def tokenRow : EnrichmentRow := nftRow token ⟨some "", some "", some ""⟩ 0

private def drained : World := indexed.insert [tokenRow] (.ok ())

omit [DataUrls] in
private theorem chunk_token : IsChunk .nftTokenUri (Candidate indexed [] .untried) none 200 [token]
    where
  mem := by
    intro key hkey
    cases List.mem_singleton.mp hkey
    refine ⟨⟨List.mem_cons_self, trivial, ?_⟩, fun last hlast => by cases hlast⟩
    rintro ⟨row, hrow, -⟩
    cases hrow
  sorted := List.pairwise_singleton _ _
  length_le := by decide
  first := by
    intro key hkey _ hout
    obtain ⟨hmem, -⟩ := hkey
    cases List.mem_singleton.mp hmem
    exact absurd List.mem_cons_self hout

omit [DataUrls] in
private theorem chunk_nothing :
    IsChunk .nftTokenUri (Candidate drained [tokenRow] .untried) (some token) 200 [] where
  mem := fun key hkey => by cases hkey
  sorted := .nil
  length_le := by decide
  first := by
    intro key hkey _ _
    obtain ⟨hmem, -, hrow⟩ := hkey
    cases List.mem_singleton.mp hmem
    exact absurd ⟨tokenRow, List.mem_cons_self, rfl⟩ hrow

private theorem reachable_drain :
    (atWork .drain (runDrain .nftTokenUri untriedArgs 2).run indexed).Reachable :=
  reachable_atWork .drain ⟨.nftTokenUri, untriedArgs, 2, rfl⟩ drift_indexed

/-- The contract of the token is unknown, so its row has nothing. -/
private theorem comes_drained : Fleet.Comes (the .drain)
    (atWork .drain (runDrain .nftTokenUri untriedArgs 2).run indexed) drained
    (.ret (Except.ok (some ⟨1, 0, 1, 0, 0⟩) : Except String (Option BackfillReport))) := by
  have htotal := (Fleet.Comes.start (running_atWork .drain
    (runDrain .nftTokenUri untriedArgs 2).run indexed)).answer
    (.candidateTotal .nftTokenUri .untried) (.ok 1) rfl rfl
  have hchunk := htotal.answer (.selectChunk .nftTokenUri none 200 .untried) (.ok [token]) rfl
    ⟨rfl, fun keys hkeys => by
      cases hkeys
      exact ⟨[], Versioned.isFinal_of_nodup .nil, chunk_token⟩⟩
  have hstrkey := hchunk.answer (.contractStrkey 7) (.ok none) rfl rfl
  have hnow := hstrkey.ask .nowMs (0 : ℤ) rfl fun _ => ⟨(), trivial⟩
  have hinsert := hnow.answer (.insert tokenRow) (.ok ()) rfl rfl
  have hjoin := hinsert.ask .joinPanicked false rfl fun _ => ⟨(), trivial⟩
  exact hjoin.answer (.selectChunk .nftTokenUri (some token) 200 .untried) (.ok []) rfl
    ⟨rfl, fun keys hkeys => by
      cases hkeys
      exact ⟨[tokenRow], Versioned.isFinal_of_nodup (List.nodup_singleton _), chunk_nothing⟩⟩

/-- **Rows are safe to show**: nothing the issuers, the contracts and the servers of others
answer gets an unsafe address or an overlong name into the tables. -/
theorem row_safe (hreach : f.Reachable) {row : EnrichmentRow} (hrow : row ∈ f.shared.rows) :
    SafeRow row :=
  (safe_enrichers hreach).inv.safe row ((safe_enrichers hreach).inv.rows_sent row hrow)

omit [DataUrls] in
/-- The row of the token, with the address of its image. -/
theorem row_safe_token : let _ := noDataUrls; SafeRow imageRow := by
  let _ := noDataUrls
  obtain ⟨f, hreach, hshared⟩ := reachable_delivered
  refine row_safe hreach ?_
  rw [hshared]
  exact List.mem_cons_self

/-- **A drain that reports no failure has tried every key.**  Its counts add up and stay
within its limit; and if the limit did not stop it, and nothing was unreachable and no
request failed, then every key that was there when it started has a row. -/
theorem drain_complete (hreach : f₀.Reachable) {k : ι .drain} {kind : Kind} {args : DrainArgs}
    {fuel : ℕ} {report : BackfillReport}
    (hstarted : f₀.running ⟨.drain, k⟩ = some (runDrain kind args fuel).run)
    (hsession : Fleet.Session ⟨.drain, k⟩ f₀ f)
    (hended : f.running ⟨.drain, k⟩ = some (.ret (.ok (some report)))) :
    report.processed =
      report.enriched + report.sentinel + (report.unreachable + report.dbFailed) ∧
    (∀ cap, args.limit = some cap → report.processed ≤ cap) ∧
    (args.mode ≠ .sentinels →
      (∀ cap, args.limit = some cap → report.processed < cap ∧ cap < 2 ^ 63) →
      report.unreachable = 0 → report.dbFailed = 0 →
      ∀ key : kind.Key, ⟨kind, key⟩ ∈ f₀.shared.base → InScope ⟨kind, key⟩ →
        f.shared.HasRow ⟨kind, key⟩) := by
  have hresult : ∀ key : kind.Key,
      DrainResult args key (Sought args key f₀.shared) report f.shared := by
    intro key
    -- a single drain, with everything else as its environment
    have hdrain : Role.drain.EstablishesTry (runDrain kind args fuel) (fun result s =>
        ∀ final, result = some final → DrainResult args key (Sought args key f₀.shared) final s)
        (f₀.shared, f₀.own ⟨.drain, k⟩) :=
      runDrain_spec key _ fuel (safe_enrichers hreach).inv fun hsought => hsought
    have hreturned := established .drain (Q := fun result s => ∀ final,
      result = .ok (some final) → DrainResult args key (Sought args key f₀.shared) final s)
      hreach hstarted ?_ hsession hended
    · exact hreturned report rfl
    · refine upholds_imp ?_ hdrain
      intro result s hs final hfinal
      rw [hfinal] at hs
      exact hs.now final rfl
  refine ⟨(hresult default).balanced, (hresult default).limit, ?_⟩
  intro hmode hunlimited hunreachable hdbFailed key hmem hinScope
  refine (hresult key).tried ⟨hmode, hinScope, hmem⟩ hunlimited ?_
  unfold BackfillReport.failures
  omega

omit [DataUrls] in
theorem drain_complete_token : drained.HasRow tokenMessage := by
  let _ := noDataUrls
  obtain ⟨f, hsession, hshared, hended⟩ := comes_drained
  obtain ⟨-, -, htried⟩ := drain_complete reachable_drain (running_atWork _ _ _) hsession hended
  rw [← hshared]
  exact htried (by decide) (fun cap hcap => by cases hcap) rfl rfl token List.mem_cons_self trivial

end SorobanExplorer.Enrichment
