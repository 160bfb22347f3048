import PagedHeap.Proofs.LockList

/-! What every lock table that grew from the empty one obeys: who excludes whom, how the
three indices fit together, and what each step takes, gives back and leaves alone. -/
namespace PagedHeap.LockTable

/- Some flat list without conflicts stands behind the table. -/
def Coherent (t : LockTable) : Prop := ∃ ls : LockList, ls.Compatible ∧ t.Shows ls

theorem emptyCoherent : Coherent empty := ⟨[], List.Pairwise.nil, emptyShows⟩

theorem Coherent.perform {t : LockTable} (coherent : t.Coherent) (step : LockStep) :
    (t.perform step).2.Coherent := by
  obtain ⟨ls, compatible, shows⟩ := coherent
  exact ⟨_, compatible.perform step, (shows.perform compatible step).2⟩

/- What a transaction may do with a page, after each step. -/

theorem findAway (locks : List Lock) (page other : PageId) :
    (locks.filter (·.page ≠ page)).find? (·.page = other) =
      if page = other then none else locks.find? (·.page = other) := by
  rw [List.find?_filter]
  split
  · rename_i same
    rw [List.find?_eq_none]
    simp [same]
  · rename_i apart
    congr 1
    funext l
    by_cases there : l.page = other
    · have away : ¬ other = page := fun here => apart here.symm
      simp [there, away]
    · simp [there]

theorem accessGrant (t : LockTable) (wanted : Lock) (txn : TxnId) (page : PageId) :
    (t.grant wanted).access? txn page =
      if wanted.txn = txn ∧ wanted.page = page then some wanted.access
      else t.access? txn page := by
  simp only [access?, heldByGrant]
  by_cases own : wanted.txn = txn
  · by_cases here : wanted.page = page
    · simp only [own, here, and_self, if_true, List.find?_append, findAway]
      simp [here]
    · simp only [own, here, and_false, if_true, if_false, List.find?_append, findAway]
      simp [here]
  · simp [own]

theorem accessRelease (t : LockTable) (txn other : TxnId) (page there : PageId) :
    (t.release txn page).access? other there =
      if txn = other ∧ page = there then none else t.access? other there := by
  simp only [access?, heldByRelease]
  by_cases own : txn = other
  · subst own
    simp only [if_true, true_and, findAway]
    split <;> rfl
  · simp [own]

theorem accessReleaseAll (t : LockTable) (txn other : TxnId) (page : PageId) :
    (t.releaseAll txn).2.access? other page =
      if txn = other then none else t.access? other page := by
  simp only [access?, heldByReleaseAll]
  split <;> rfl

theorem accessRequest {t : LockTable} {wanted : Lock} (granted : (t.request wanted).1 = true)
    (txn : TxnId) (page : PageId) :
    (t.request wanted).2.access? txn page =
      if wanted.txn = txn ∧ wanted.page = page then
        some (if t.access? txn page = some .exclusive then .exclusive else wanted.access)
      else t.access? txn page := by
  cases covered : t.covers wanted with
  | true =>
    simp only [request, covered, if_true]
    split
    · rename_i own
      obtain ⟨rfl, rfl⟩ := own
      unfold covers at covered
      split at covered
      · rename_i held
        simp [held]
      · rename_i held asked
        simp [held, asked]
      · cases covered
    · rfl
  | false =>
    have grantable : t.canGrant wanted = true := by
      simpa only [requestIff, covered, Bool.false_or] using granted
    simp only [request, covered, grantable, if_true]
    refine (accessGrant ..).trans ?_
    split
    · rename_i own
      obtain ⟨rfl, rfl⟩ := own
      split
      · rename_i held
        simp [covers, held] at covered
      · rfl
    · rfl

theorem heldByRequest (t : LockTable) {wanted : Lock} {txn : TxnId} (other : txn ≠ wanted.txn) :
    (t.request wanted).2.heldBy txn = t.heldBy txn := by
  simp only [request]
  split
  · rfl
  · split
    · rw [heldByGrant, if_neg fun own => other own.symm]
    · rfl

namespace Coherent

variable {t : LockTable}

theorem lockOf (coherent : t.Coherent) {txn : TxnId} {page : PageId} {access : Access} :
    t.access? txn page = some access ↔ (⟨txn, page, access⟩ : Lock) ∈ t.heldBy txn := by
  obtain ⟨ls, compatible, shows⟩ := coherent
  rw [shows.accessIff compatible, shows.memHeld]
  simp

theorem alone (coherent : t.Coherent) {txn other : TxnId} {page : PageId}
    (owns : t.access? txn page = some .exclusive) (apart : other ≠ txn) :
    t.access? other page = none := by
  obtain ⟨ls, compatible, shows⟩ := coherent
  cases found : t.access? other page with
  | none => rfl
  | some access =>
    have mine := (shows.accessIff compatible).mp owns
    have theirs := (shows.accessIff compatible).mp found
    have conflict := compatible.apart mine theirs
    simp [Lock.conflicts, apart.symm] at conflict

theorem ownedIff (coherent : t.Coherent) {page : PageId} :
    t.isOwned page = true ↔ ∃ txn, t.access? txn page = some .exclusive := by
  obtain ⟨ls, compatible, shows⟩ := coherent
  simp only [isOwned, Option.isSome_iff_exists, shows.ownerIff compatible,
    shows.accessIff compatible]

theorem memOwnedBy (coherent : t.Coherent) {txn : TxnId} {page : PageId} :
    page ∈ t.ownedBy txn ↔ t.access? txn page = some .exclusive := by
  rw [coherent.lockOf]
  obtain ⟨ls, compatible, shows⟩ := coherent
  simp only [ownedBy, List.mem_map, List.mem_filter, decide_eq_true_eq]
  constructor
  · rintro ⟨⟨holder, page, access⟩, ⟨held, rfl⟩, rfl⟩
    have own : holder = txn := (shows.memHeld.mp held).2
    exact own ▸ held
  · exact fun held => ⟨_, ⟨held, rfl⟩, rfl⟩

end Coherent

/- The same facts in one piece, for the tables that steps can lead to. -/

structure Agrees (t : LockTable) : Prop where
  alone : ∀ txn other page, t.access? txn page = some .exclusive → other ≠ txn →
    t.access? other page = none
  onePerPage : ∀ txn, ((t.heldBy txn).map (·.page)).Nodup
  signed : ∀ txn, ∀ l ∈ t.heldBy txn, l.txn = txn
  sharers : ∀ txn page, (t.sharers.of page).count txn =
    if (⟨txn, page, .shared⟩ : Lock) ∈ t.heldBy txn then 1 else 0
  owners : ∀ txn page, t.owners.of page = [txn] ↔
    (⟨txn, page, .exclusive⟩ : Lock) ∈ t.heldBy txn
  noOtherOwners : ∀ page, t.owners.of page = [] ∨ ∃ txn, t.owners.of page = [txn]

structure RequestLaw (t : LockTable) (wanted : Lock) : Prop where
  grantedIff : (t.request wanted).1 = true ↔
    ∀ other, other ≠ wanted.txn → ∀ l ∈ t.heldBy other, l.conflicts wanted = false
  asCanGrant : (t.request wanted).1 = t.canGrant wanted
  refused : (t.request wanted).1 = false → (t.request wanted).2 = t
  own : (t.request wanted).1 = true → (t.request wanted).2.access? wanted.txn wanted.page =
    some (if t.access? wanted.txn wanted.page = some .exclusive then .exclusive
      else wanted.access)
  elsewhere : ∀ page, page ≠ wanted.page →
    (t.request wanted).2.access? wanted.txn page = t.access? wanted.txn page
  others : ∀ other, other ≠ wanted.txn → (t.request wanted).2.heldBy other = t.heldBy other

structure ReleaseLaw (t : LockTable) (txn : TxnId) (page : PageId) : Prop where
  own : (t.release txn page).heldBy txn = (t.heldBy txn).filter (·.page ≠ page)
  others : ∀ other, other ≠ txn → (t.release txn page).heldBy other = t.heldBy other

structure ReleaseAllLaw (t : LockTable) (txn : TxnId) : Prop where
  returned : (t.releaseAll txn).1 = t.heldBy txn
  own : (t.releaseAll txn).2.heldBy txn = []
  others : ∀ other, other ≠ txn → (t.releaseAll txn).2.heldBy other = t.heldBy other

theorem holdersNodup {ls : LockList} (compatible : ls.Compatible) (access : Access)
    (page : PageId) : (holdersIn ls access page).Nodup := by
  refine List.pairwise_map.mpr (List.Pairwise.imp_of_mem ?_ (compatible.filter _))
  intro a b ha hb apart same
  have pageA := (List.mem_filter.mp ha).2
  have pageB := (List.mem_filter.mp hb).2
  simp only [Bool.and_eq_true, decide_eq_true_eq] at pageA pageB
  have second := apart.2
  simp [Lock.isAt, same, pageA.1, pageB.1] at second

theorem soleOwner {ls : LockList} (compatible : ls.Compatible) (page : PageId) :
    holdersIn ls .exclusive page = [] ∨ ∃ txn, holdersIn ls .exclusive page = [txn] := by
  have nodup := holdersNodup compatible .exclusive page
  cases found : holdersIn ls .exclusive page with
  | nil => exact .inl rfl
  | cons head rest =>
    cases rest with
    | nil => exact .inr ⟨head, rfl⟩
    | cons second rest =>
      have first : head ∈ holdersIn ls .exclusive page := by simp [found]
      have other : second ∈ holdersIn ls .exclusive page := by simp [found]
      have apart := compatible.apart (memHolders.mp first) (memHolders.mp other)
      have again : head = second := by simpa [Lock.conflicts] using apart
      simp [found, again] at nodup

namespace Coherent

variable {t : LockTable}

theorem agrees (coherent : t.Coherent) : t.Agrees := by
  have alone (txn other : TxnId) (page : PageId) (owns : t.access? txn page = some .exclusive)
      (apart : other ≠ txn) : t.access? other page = none := coherent.alone owns apart
  obtain ⟨ls, compatible, shows⟩ := coherent
  have heldIff (txn : TxnId) (page : PageId) (access : Access) :
      (⟨txn, page, access⟩ : Lock) ∈ t.heldBy txn ↔ txn ∈ holdersIn ls access page := by
    rw [shows.memHeld, memHolders]
    simp
  refine ⟨alone, fun txn => ?_, fun txn l held => (shows.memHeld.mp held).2, fun txn page => ?_,
    fun txn page => ?_, fun page => ?_⟩
  · rw [shows.held]
    refine List.pairwise_map.mpr (List.Pairwise.imp_of_mem ?_ (compatible.filter _))
    intro a b ha hb apart same
    have ownA : a.txn = txn := by simpa using (List.mem_filter.mp ha).2
    have ownB : b.txn = txn := by simpa using (List.mem_filter.mp hb).2
    have second := apart.2
    simp [Lock.isAt, same, ownA, ownB] at second
  · simp only [shows.sharers, heldIff]
    exact (holdersNodup compatible .shared page).count
  · rw [shows.owners, heldIff]
    rcases soleOwner compatible page with none | ⟨owner, sole⟩
    · simp [none]
    · simp [sole, eq_comm]
  · rw [shows.owners]
    exact soleOwner compatible page

theorem asCanGrant (coherent : t.Coherent) (wanted : Lock) :
    (t.request wanted).1 = t.canGrant wanted := by
  obtain ⟨ls, compatible, shows⟩ := coherent
  rw [requestIff, shows.coversIff compatible, shows.canGrantIff compatible]
  cases served : ls.any (·.serves wanted) with
  | false => rfl
  | true => rw [Shows.servedFree compatible served]; rfl

theorem requestLaw (coherent : t.Coherent) (wanted : Lock) : t.RequestLaw wanted := by
  refine ⟨?_, coherent.asCanGrant wanted, fun refused => ?_, fun granted => ?_, fun page away => ?_,
    fun other apart => t.heldByRequest apart⟩
  · rw [coherent.asCanGrant]
    obtain ⟨ls, compatible, shows⟩ := coherent
    rw [shows.canGrantIff compatible, Bool.not_eq_true', List.any_eq_false]
    constructor
    · intro free other _ l held
      exact Bool.eq_false_iff.mpr (free l (shows.memHeld.mp held).1)
    · intro free l present conflict
      have apart : l.txn ≠ wanted.txn := by
        simp only [Lock.conflicts, Bool.and_eq_true, decide_eq_true_eq] at conflict
        exact conflict.1.2
      have none := free l.txn apart l (shows.memHeld.mpr ⟨present, rfl⟩)
      rw [none] at conflict
      cases conflict
  · rw [requestRefused refused]
  · rw [accessRequest granted, if_pos ⟨rfl, rfl⟩]
  · cases granted : (t.request wanted).1 with
    | false => rw [requestRefused granted]
    | true => rw [accessRequest granted, if_neg fun own => away own.2.symm]

end Coherent

theorem releaseLaw (t : LockTable) (txn : TxnId) (page : PageId) : t.ReleaseLaw txn page :=
  ⟨by rw [heldByRelease, if_pos rfl],
    fun _ apart => by rw [heldByRelease, if_neg fun own => apart own.symm]⟩

theorem releaseAllLaw (t : LockTable) (txn : TxnId) : t.ReleaseAllLaw txn :=
  ⟨rfl, by rw [heldByReleaseAll, if_pos rfl],
    fun _ apart => by rw [heldByReleaseAll, if_neg fun own => apart own.symm]⟩

/-- Any steps from the empty table answer as they would on one flat list without
conflicts, of which the indices of the table remain three views; and the next step of
any kind takes and gives back what its law says. -/
theorem tableIsFlatList (steps : List LockStep) :
    let t := (empty.run steps).2
    let ls := (LockList.run [] steps).2
    (empty.run steps).1 = (LockList.run [] steps).1 ∧ t.Shows ls ∧ ls.Compatible ∧ t.Agrees ∧
      (∀ wanted, t.RequestLaw wanted) ∧ (∀ txn page, t.ReleaseLaw txn page) ∧
      ∀ txn, t.ReleaseAllLaw txn := by
  obtain ⟨answers, shows, compatible⟩ := emptyShows.run List.Pairwise.nil steps
  have coherent : ((empty.run steps).2).Coherent := ⟨_, compatible, shows⟩
  exact ⟨answers, shows, compatible, coherent.agrees, coherent.requestLaw, releaseLaw _,
    releaseAllLaw _⟩

end PagedHeap.LockTable
