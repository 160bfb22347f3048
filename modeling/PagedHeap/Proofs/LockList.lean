import PagedHeap.Lock.Table

/-! Locks as one flat list, in the order in which they were taken. A lock table shows
such a list: each of its three indices is the list with one question asked of it. A
request, a release and the end of a transaction act on the table as they act on the
list, where a request is refused exactly for a lock of somebody else in its way. -/
namespace PagedHeap

namespace Lock

def isAt (l : Lock) (txn : TxnId) (page : PageId) : Bool := l.txn = txn && l.page = page

/- Two locks of different transactions on one page, one of them exclusive. -/
def conflicts (a b : Lock) : Bool :=
  a.page = b.page && a.txn ≠ b.txn && (a.access = .exclusive || b.access = .exclusive)

def serves (a b : Lock) : Bool :=
  a.isAt b.txn b.page && (a.access = .exclusive || b.access = .shared)

theorem conflictsSymm (a b : Lock) : a.conflicts b = b.conflicts a := by
  simp only [conflicts, eq_comm (a := a.page), eq_comm (a := a.txn), ne_eq,
    Bool.or_comm (decide (a.access = .exclusive))]

end Lock

inductive LockStep where
  | request (wanted : Lock)
  | release (txn : TxnId) (page : PageId)
  | releaseAll (txn : TxnId)
  deriving DecidableEq, Repr

inductive LockReply where
  | held (granted : Bool)
  | done
  | released (locks : List Lock)
  deriving DecidableEq, Repr

abbrev LockList := List Lock

namespace LockList

def request (ls : LockList) (wanted : Lock) : Bool × LockList :=
  if ls.any (·.conflicts wanted) then (false, ls)
  else if ls.any (·.serves wanted) then (true, ls)
  else (true, ls.filter (fun l => !l.isAt wanted.txn wanted.page) ++ [wanted])

def release (ls : LockList) (txn : TxnId) (page : PageId) : LockList :=
  ls.filter (fun l => !l.isAt txn page)

def releaseAll (ls : LockList) (txn : TxnId) : List Lock × LockList :=
  (ls.filter (·.txn = txn), ls.filter (·.txn ≠ txn))

def perform (ls : LockList) : LockStep → LockReply × LockList
  | .request wanted => (.held (ls.request wanted).1, (ls.request wanted).2)
  | .release txn page => (.done, ls.release txn page)
  | .releaseAll txn => (.released (ls.releaseAll txn).1, (ls.releaseAll txn).2)

def run (ls : LockList) : List LockStep → List LockReply × LockList
  | [] => ([], ls)
  | step :: rest =>
    let (replies, final) := run (ls.perform step).2 rest
    ((ls.perform step).1 :: replies, final)

/- No two locks are in each other's way, and none is a second lock of one transaction
on one page. -/
def Compatible (ls : LockList) : Prop :=
  ls.Pairwise fun a b => a.conflicts b = false ∧ a.isAt b.txn b.page = false

namespace Compatible

theorem unique {ls : LockList} (compatible : ls.Compatible) {a b : Lock} (ha : a ∈ ls) (hb : b ∈ ls)
    (txn : a.txn = b.txn) (page : a.page = b.page) : a = b := by
  induction ls with
  | nil => cases ha
  | cons head rest ih =>
    obtain ⟨apart, compatible⟩ := List.pairwise_cons.mp compatible
    rcases List.mem_cons.mp ha with rfl | inA <;> rcases List.mem_cons.mp hb with rfl | inB
    · rfl
    · have second := (apart b inB).2
      simp [Lock.isAt, txn, page] at second
    · have second := (apart a inA).2
      simp [Lock.isAt, txn, page] at second
    · exact ih compatible inA inB

theorem apart {ls : LockList} (compatible : ls.Compatible) {a b : Lock} (ha : a ∈ ls)
    (hb : b ∈ ls) : a.conflicts b = false := by
  induction ls with
  | nil => cases ha
  | cons head rest ih =>
    obtain ⟨apart, compatible⟩ := List.pairwise_cons.mp compatible
    rcases List.mem_cons.mp ha with rfl | inA <;> rcases List.mem_cons.mp hb with rfl | inB
    · simp [Lock.conflicts]
    · exact (apart b inB).1
    · rw [Lock.conflictsSymm]
      exact (apart a inA).1
    · exact ih compatible inA inB

theorem filter {ls : LockList} (compatible : ls.Compatible) (p : Lock → Bool) :
    Compatible (ls.filter p) := List.Pairwise.filter p compatible

theorem request {ls : LockList} (compatible : ls.Compatible) (wanted : Lock) :
    (ls.request wanted).2.Compatible := by
  unfold LockList.request
  split
  · exact compatible
  · rename_i free
    split
    · exact compatible
    · refine List.pairwise_append.mpr ⟨compatible.filter _, List.pairwise_singleton _ _, ?_⟩
      intro a ha b hb
      obtain ⟨present, other⟩ := List.mem_filter.mp ha
      cases List.mem_singleton.mp hb
      refine ⟨?_, by simpa using other⟩
      simp only [List.any_eq_true, not_exists, not_and, Bool.not_eq_true] at free
      exact free a present

theorem perform {ls : LockList} (compatible : ls.Compatible) (step : LockStep) :
    (ls.perform step).2.Compatible := by
  cases step with
  | request wanted => exact compatible.request wanted
  | release txn page => exact compatible.filter _
  | releaseAll txn => exact compatible.filter _

end Compatible
end LockList

namespace LockTable

def perform (t : LockTable) : LockStep → LockReply × LockTable
  | .request wanted => (.held (t.request wanted).1, (t.request wanted).2)
  | .release txn page => (.done, t.release txn page)
  | .releaseAll txn => (.released (t.releaseAll txn).1, (t.releaseAll txn).2)

def run (t : LockTable) : List LockStep → List LockReply × LockTable
  | [] => ([], t)
  | step :: rest =>
    let (replies, final) := run (t.perform step).2 rest
    ((t.perform step).1 :: replies, final)

def holdersIn (ls : LockList) (access : Access) (page : PageId) : List TxnId :=
  (ls.filter (fun l => l.page = page && l.access = access)).map (·.txn)

/- The table is the flat list, asked three questions. -/
structure Shows (t : LockTable) (ls : LockList) : Prop where
  held : ∀ txn, t.heldBy txn = ls.filter (·.txn = txn)
  sharers : ∀ page, t.sharers.of page = holdersIn ls .shared page
  owners : ∀ page, t.owners.of page = holdersIn ls .exclusive page

theorem emptyShows : Shows empty [] := ⟨fun _ => rfl, fun _ => rfl, fun _ => rfl⟩

/- What the indices answer, read off the list. -/

theorem memHolders {ls : LockList} {access : Access} {page : PageId} {txn : TxnId} :
    txn ∈ holdersIn ls access page ↔ (⟨txn, page, access⟩ : Lock) ∈ ls := by
  simp only [holdersIn, List.mem_map, List.mem_filter, Bool.and_eq_true, decide_eq_true_eq]
  constructor
  · rintro ⟨⟨_, _, _⟩, ⟨present, rfl, rfl⟩, rfl⟩
    exact present
  · exact fun present => ⟨_, ⟨present, rfl, rfl⟩, rfl⟩

namespace Shows

variable {t : LockTable} {ls : LockList}

theorem memHeld (shows : Shows t ls) {txn : TxnId} {l : Lock} :
    l ∈ t.heldBy txn ↔ l ∈ ls ∧ l.txn = txn := by
  rw [shows.held, List.mem_filter, decide_eq_true_eq]

theorem accessIff (shows : Shows t ls) (compatible : ls.Compatible) {txn : TxnId} {page : PageId}
    {access : Access} :
    t.access? txn page = some access ↔ (⟨txn, page, access⟩ : Lock) ∈ ls := by
  rw [access?, Option.map_eq_some_iff]
  constructor
  · rintro ⟨l, found, rfl⟩
    have there := shows.memHeld.mp (List.mem_of_find?_eq_some found)
    have here : l.page = page := by simpa using List.find?_some found
    rw [← here, ← there.2]
    exact there.1
  · intro present
    have held := shows.memHeld.mpr ⟨present, rfl⟩
    obtain ⟨l, found⟩ := Option.isSome_iff_exists.mp
      (List.find?_isSome (p := fun l : Lock => decide (l.page = page)) |>.mpr
        ⟨_, held, decide_eq_true rfl⟩)
    have there := shows.memHeld.mp (List.mem_of_find?_eq_some found)
    have here : l.page = page := by simpa using List.find?_some found
    have same := compatible.unique there.1 present there.2 here
    exact ⟨l, found, by rw [same]⟩

theorem ownerIff (shows : Shows t ls) (compatible : ls.Compatible) {page : PageId} {txn : TxnId} :
    t.owner? page = some txn ↔ (⟨txn, page, .exclusive⟩ : Lock) ∈ ls := by
  rw [owner?, shows.owners]
  constructor
  · exact fun first => memHolders.mp (List.mem_of_head? first)
  · intro present
    have listed := memHolders.mpr present
    cases found : holdersIn ls .exclusive page with
    | nil => rw [found] at listed; cases listed
    | cons head rest =>
      have first : (⟨head, page, .exclusive⟩ : Lock) ∈ ls :=
        memHolders.mp (found ▸ List.mem_cons_self)
      have free := compatible.apart first present
      simp only [Lock.conflicts, decide_true, Bool.true_and, ne_eq, Bool.or_self,
        Bool.and_true, decide_not, Bool.not_eq_false', decide_eq_true_eq] at free
      rw [List.head?_cons, free]

theorem coversIff (shows : Shows t ls) (compatible : ls.Compatible) (wanted : Lock) :
    t.covers wanted = ls.any (·.serves wanted) := by
  rw [Bool.eq_iff_iff, List.any_eq_true]
  constructor
  · intro covered
    unfold covers at covered
    split at covered
    · rename_i own
      exact ⟨_, (shows.accessIff compatible).mp own, by simp [Lock.serves, Lock.isAt]⟩
    · rename_i own shared
      exact ⟨_, (shows.accessIff compatible).mp own, by simp [Lock.serves, Lock.isAt, shared]⟩
    · cases covered
  · rintro ⟨⟨txn, page, access⟩, present, enough⟩
    simp only [Lock.serves, Lock.isAt, Bool.and_eq_true, decide_eq_true_eq,
      Bool.or_eq_true] at enough
    obtain ⟨⟨rfl, rfl⟩, enough⟩ := enough
    have own := (shows.accessIff compatible).mpr present
    rcases enough with rfl | shared
    · simp [covers, own]
    · cases access <;> simp [covers, own, shared]

theorem freeIff (shows : Shows t ls) (compatible : ls.Compatible) {txn : TxnId} {page : PageId} :
    t.isFreeFor txn page = true ↔
      ∀ l ∈ ls, l.page = page → l.access = .exclusive → l.txn = txn := by
  unfold isFreeFor
  constructor
  · rintro only ⟨owner, page, access⟩ present rfl rfl
    rw [(shows.ownerIff compatible).mpr present] at only
    simpa using only
  · intro only
    split
    · rename_i owner found
      simpa using only _ ((shows.ownerIff compatible).mp found) rfl rfl
    · rfl

theorem aloneIff (shows : Shows t ls) {txn : TxnId} {page : PageId} :
    (t.sharers.of page).all (· = txn) = true ↔
      ∀ l ∈ ls, l.page = page → l.access = .shared → l.txn = txn := by
  rw [shows.sharers, List.all_eq_true]
  constructor
  · rintro only ⟨sharer, page, access⟩ present rfl rfl
    simpa using only sharer (memHolders.mpr present)
  · intro only sharer listed
    simpa using only _ (memHolders.mp listed) rfl rfl

theorem canGrantIff (shows : Shows t ls) (compatible : ls.Compatible) (wanted : Lock) :
    t.canGrant wanted = !ls.any (·.conflicts wanted) := by
  rw [Bool.eq_iff_iff, Bool.not_eq_true', List.any_eq_false]
  cases access : wanted.access with
  | shared =>
    simp only [canGrant, access, shows.freeIff compatible, Lock.conflicts]
    constructor
    · intro only l present
      have own := only l present
      simp only [Bool.and_eq_true, decide_eq_true_eq, ne_eq, Bool.or_eq_true]
      rintro ⟨⟨page, other⟩, exclusive | impossible⟩
      · exact other (own page exclusive)
      · cases impossible
    · intro none l present page exclusive
      have own := none l present
      simpa [page, exclusive] using own
  | exclusive =>
    simp only [canGrant, access, Bool.and_eq_true, shows.freeIff compatible, shows.aloneIff,
      Lock.conflicts]
    constructor
    · rintro ⟨only, sole⟩ l present
      simp only [decide_eq_true_eq, ne_eq]
      rintro ⟨⟨page, other⟩, _⟩
      cases mode : l.access with
      | shared => exact other (sole l present page mode)
      | exclusive => exact other (only l present page mode)
    · intro none
      refine ⟨fun l present page _ => ?_, fun l present page _ => ?_⟩ <;>
      · have own := none l present
        simpa [page] using own

end Shows

/- What becomes of the index of holders when a lock, or a whole transaction, leaves the
list. -/

theorem holdersAppend (ls : LockList) (l : Lock) (access : Access) (page : PageId) :
    holdersIn (ls ++ [l]) access page =
      if l.page = page ∧ l.access = access then holdersIn ls access page ++ [l.txn]
      else holdersIn ls access page := by
  simp only [holdersIn, List.filter_append, List.map_append]
  split
  · rename_i same
    simp [same]
  · rename_i other
    have none : ([l].filter fun l => l.page = page && l.access = access) = [] := by
      simpa using other
    simp [none]

theorem holdersRelease (ls : LockList) (txn : TxnId) (page other : PageId) (access : Access) :
    holdersIn (ls.release txn page) access other =
      if page = other then (holdersIn ls access page).filter (· ≠ txn)
      else holdersIn ls access other := by
  simp only [holdersIn, LockList.release, List.filter_filter, List.filter_map]
  split
  · rename_i same
    subst same
    congr 1
    apply List.filter_congr
    intro l _
    by_cases here : l.page = page <;> simp [Lock.isAt, here, Bool.and_comm]
  · rename_i apart
    congr 1
    apply List.filter_congr
    intro l _
    by_cases there : l.page = other
    · have away : ¬ l.page = page := fun here => apart (here.symm.trans there)
      simp [Lock.isAt, away]
    · simp [there]

theorem ownRelease (ls : LockList) (txn other : TxnId) (page : PageId) :
    (ls.release txn page).filter (·.txn = other) =
      if txn = other then (ls.filter (·.txn = other)).filter (·.page ≠ page)
      else ls.filter (·.txn = other) := by
  rw [LockList.release, List.filter_filter]
  split
  · rename_i own
    subst own
    rw [List.filter_filter]
    apply List.filter_congr
    intro l _
    by_cases own : l.txn = txn <;> simp [Lock.isAt, own]
  · rename_i apart
    apply List.filter_congr
    intro l _
    by_cases there : l.txn = other
    · have away : ¬ l.txn = txn := fun own => apart (own.symm.trans there)
      simp [Lock.isAt, away]
    · simp [there]

theorem withoutStranger {holders : List TxnId} {txn : TxnId} (stranger : txn ∉ holders) :
    holders.filter (· ≠ txn) = holders :=
  List.filter_eq_self.mpr fun _ listed => decide_eq_true fun same => stranger (same ▸ listed)

theorem holdersReleaseAll (ls : LockList) (txn : TxnId) (page : PageId) (access : Access) :
    holdersIn (ls.releaseAll txn).2 access page = (holdersIn ls access page).filter (· ≠ txn) := by
  simp only [holdersIn, LockList.releaseAll, List.filter_filter, List.filter_map]
  congr 1
  apply List.filter_congr
  intro l _
  exact Bool.and_comm _ _

theorem ofLeaveAll (txn : TxnId) (locks : List Lock) (t : LockTable) (page : PageId) :
    let left := locks.foldl (fun t lock => t.leave txn lock.page) t
    left.sharers.of page = (if page ∈ locks.map (·.page) then (t.sharers.of page).filter (· ≠ txn)
      else t.sharers.of page) ∧
    left.owners.of page = (if page ∈ locks.map (·.page) then (t.owners.of page).filter (· ≠ txn)
      else t.owners.of page) := by
  induction locks generalizing t with
  | nil => exact ⟨rfl, rfl⟩
  | cons lock rest ih =>
    obtain ⟨sharers, owners⟩ := ih (t.leave txn lock.page)
    have sharing := Holders.ofDrop t.sharers lock.page page txn
    have owning := Holders.ofDrop t.owners lock.page page txn
    change (t.leave txn lock.page).sharers.of page = _ at sharing
    change (t.leave txn lock.page).owners.of page = _ at owning
    rw [sharing] at sharers
    rw [owning] at owners
    by_cases here : lock.page = page
    · subst here
      refine ⟨sharers.trans ?_, owners.trans ?_⟩ <;>
        simp only [if_true, List.filter_filter, Bool.and_self, ite_self, List.map_cons,
          List.mem_cons, true_or]
    · have away : ¬ page = lock.page := fun there => here there.symm
      simp only [here, if_false] at sharers owners
      simp only [List.map_cons, List.mem_cons, away, false_or]
      exact ⟨sharers, owners⟩

namespace Shows

variable {t : LockTable} {ls : LockList}

theorem servedFree (compatible : ls.Compatible) {wanted : Lock}
    (served : ls.any (·.serves wanted) = true) : ls.any (·.conflicts wanted) = false := by
  obtain ⟨own, present, enough⟩ := List.any_eq_true.mp served
  rw [List.any_eq_false]
  intro other there conflict
  have apart := compatible.apart present there
  simp only [Lock.serves, Lock.isAt, Bool.and_eq_true, decide_eq_true_eq, Bool.or_eq_true] at enough
  simp only [Lock.conflicts, Bool.and_eq_true, decide_eq_true_eq, ne_eq,
    Bool.or_eq_true] at conflict
  obtain ⟨⟨txn, page⟩, enough⟩ := enough
  obtain ⟨⟨same, different⟩, exclusive⟩ := conflict
  have foreign : ¬ wanted.txn = other.txn := fun e => different e.symm
  rcases enough with own | shared
  · simp [Lock.conflicts, txn, page, same, foreign, own] at apart
  · have other : other.access = .exclusive := by
      rcases exclusive with there | impossible
      · exact there
      · rw [shared] at impossible
        cases impossible
    simp [Lock.conflicts, txn, page, same, foreign, other] at apart

theorem grant (shows : Shows t ls) {wanted : Lock} (missing : ls.any (·.serves wanted) = false) :
    Shows (t.grant wanted) (ls.release wanted.txn wanted.page ++ [wanted]) := by
  rw [List.any_eq_false] at missing
  -- a lock of one's own on the page can only be a shared one that is to become exclusive
  have stronger (l : Lock) (present : l ∈ ls) (here : l.isAt wanted.txn wanted.page = true) :
      l.access = .shared ∧ wanted.access = .exclusive := by
    have weak := missing l present
    simp only [Lock.serves, here, Bool.true_and, Bool.or_eq_true, decide_eq_true_eq,
      not_or] at weak
    cases own : l.access <;> cases asked : wanted.access <;> simp_all
  refine ⟨fun txn => ?_, fun page => ?_, fun page => ?_⟩
  · rw [heldByGrant, shows.held, List.filter_append, ownRelease]
    by_cases own : wanted.txn = txn <;> simp [own]
  · rw [holdersAppend, holdersRelease, ← shows.sharers, ← shows.sharers]
    cases asked : wanted.access with
    | exclusive => simp [LockTable.grant, asked, Holders.ofStrike]
    | shared =>
      have stranger : wanted.txn ∉ t.sharers.of wanted.page := by
        rw [shows.sharers]
        intro listed
        have present := memHolders.mp listed
        have raised := (stronger _ present (by simp [Lock.isAt])).2
        rw [asked] at raised
        cases raised
      simp only [LockTable.grant, asked, Holders.ofAdd, withoutStranger stranger, and_true]
      split <;> rfl
  · rw [holdersAppend, holdersRelease, ← shows.owners, ← shows.owners]
    have stranger : wanted.txn ∉ t.owners.of wanted.page := by
      rw [shows.owners]
      intro listed
      have present := memHolders.mp listed
      have weak := (stronger _ present (by simp [Lock.isAt])).1
      cases weak
    have kept := withoutStranger stranger
    cases asked : wanted.access with
    | exclusive =>
      simp only [LockTable.grant, asked, Holders.ofAdd, kept, and_true]
      split <;> rfl
    | shared =>
      simp only [LockTable.grant, asked, kept, reduceCtorEq, and_false, if_false]
      split
      · rename_i same
        rw [same]
      · rfl

theorem request (shows : Shows t ls) (compatible : ls.Compatible) (wanted : Lock) :
    (t.request wanted).1 = (ls.request wanted).1 ∧
      Shows (t.request wanted).2 (ls.request wanted).2 := by
  unfold LockTable.request LockList.request
  rw [shows.coversIff compatible, shows.canGrantIff compatible]
  cases served : ls.any (·.serves wanted) with
  | true =>
    rw [servedFree compatible served]
    exact ⟨rfl, shows⟩
  | false =>
    cases ls.any (·.conflicts wanted) with
    | true => exact ⟨rfl, shows⟩
    | false => exact ⟨rfl, shows.grant served⟩

theorem release (shows : Shows t ls) (txn : TxnId) (page : PageId) :
    Shows (t.release txn page) (ls.release txn page) := by
  refine ⟨fun other => ?_, fun other => ?_, fun other => ?_⟩
  · rw [heldByRelease, shows.held, shows.held, ownRelease]
    split
    · rename_i own
      rw [own]
    · rfl
  · rw [holdersRelease, ← shows.sharers, ← shows.sharers]
    exact Holders.ofDrop ..
  · rw [holdersRelease, ← shows.owners, ← shows.owners]
    exact Holders.ofDrop ..

theorem releaseAll (shows : Shows t ls) (txn : TxnId) :
    (t.releaseAll txn).1 = (ls.releaseAll txn).1 ∧
      Shows (t.releaseAll txn).2 (ls.releaseAll txn).2 := by
  have stranger (access : Access) (page : PageId)
      (absent : page ∉ (t.heldBy txn).map (·.page)) :
      (holdersIn ls access page).filter (· ≠ txn) = holdersIn ls access page := by
    refine withoutStranger fun listed => absent ?_
    exact List.mem_map.mpr ⟨_, shows.memHeld.mpr ⟨memHolders.mp listed, rfl⟩, rfl⟩
  refine ⟨shows.held txn, fun other => ?_, fun page => ?_, fun page => ?_⟩
  · rw [heldByReleaseAll, shows.held, LockList.releaseAll, List.filter_filter]
    split
    · rename_i own
      subst own
      symm
      rw [List.filter_eq_nil_iff]
      intro l _
      simp
    · rename_i apart
      apply List.filter_congr
      intro l _
      by_cases there : l.txn = other
      · have away : ¬ l.txn = txn := fun own => apart (own.symm.trans there)
        simp [away]
      · simp [there]
  · rw [holdersReleaseAll, ← shows.sharers]
    refine ((ofLeaveAll txn (t.heldBy txn) t page).1).trans ?_
    split
    · rfl
    · rename_i absent
      rw [shows.sharers, stranger _ _ absent]
  · rw [holdersReleaseAll, ← shows.owners]
    refine ((ofLeaveAll txn (t.heldBy txn) t page).2).trans ?_
    split
    · rfl
    · rename_i absent
      rw [shows.owners, stranger _ _ absent]

theorem perform (shows : Shows t ls) (compatible : ls.Compatible) (step : LockStep) :
    (t.perform step).1 = (ls.perform step).1 ∧ Shows (t.perform step).2 (ls.perform step).2 := by
  cases step with
  | request wanted =>
    obtain ⟨answer, shows⟩ := shows.request compatible wanted
    exact ⟨congrArg LockReply.held answer, shows⟩
  | release txn page => exact ⟨rfl, shows.release txn page⟩
  | releaseAll txn =>
    obtain ⟨answer, shows⟩ := shows.releaseAll txn
    exact ⟨congrArg LockReply.released answer, shows⟩

theorem run (shows : Shows t ls) (compatible : ls.Compatible) (steps : List LockStep) :
    (t.run steps).1 = (ls.run steps).1 ∧ Shows (t.run steps).2 (ls.run steps).2 ∧
      (ls.run steps).2.Compatible := by
  induction steps generalizing t ls with
  | nil => exact ⟨rfl, shows, compatible⟩
  | cons step rest ih =>
    obtain ⟨answer, next⟩ := shows.perform compatible step
    obtain ⟨answers, final⟩ := ih next (compatible.perform step)
    exact ⟨by simp only [LockTable.run, LockList.run, answer, answers], final⟩

end Shows
end LockTable
end PagedHeap
