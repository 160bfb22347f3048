import PagedHeap.Proofs.Coverage
import PagedHeap.Proofs.YieldedRecords

/-! Whole walks of a cursor while anybody works on the pool, pages leave the cache and volumes
fail. From one rewinding to the next what is told ascends and ends at most once in a failure, and
a record that stays where it is all along is told once. -/
namespace PagedHeap

open Pool (Moves Interlude)

def Act.fitting : Act → Prop
  | .register file => file.layout.slots ≤ UInt32.size
  | _ => True

theorem Act.calmFitting {act : Act} (h : act.calm) : act.fitting := by
  cases act <;> first | exact h.elim | trivial

namespace Pool

variable {p q : Pool} {who : Option TxnId} {act : Act} {frame : Frame}

theorem Fitting.move (fitting : p.Fitting) (allowed : act.fitting) (move : Move act p q) :
    q.Fitting := by
  intro table its found
  cases move with
  | register =>
    obtain rfl | before := KeyMap.insertSource found
    · exact allowed
    · exact fitting table its before
  | evict | forget =>
    rw [dropTables] at found
    exact fitting table its found
  | _ => exact fitting table its found

theorem Fitting.moves {kind : Act → Prop} (fitting : p.Fitting)
    (allowed : ∀ act, kind act → act.fitting) (moves : Moves kind p q) : q.Fitting :=
  moves.within (fun p q => p.Fitting → q.Fitting) (fun _ same => same)
    (fun _ _ _ first second same => second (first same))
    (fun act _ _ of move same => same.move (allowed act of) move) fitting

/- What somebody does in a stretch: moves that change no record, and at most one that does, which
is the last. -/
def Passes (who : Option TxnId) (p q : Pool) : Prop :=
  ∃ m, Moves (Act.calmOwn who) p m ∧
    (m = q ∨ ∃ act, act.byOwn who ∧ act.fitting ∧ Move act m q)

namespace Passes

theorem calm (moves : Moves (Act.calmOwn who) p q) : Passes who p q := ⟨q, moves, .inl rfl⟩

theorem moves (passes : Passes who p q) :
    Moves (fun act => act.byOwn who ∧ act.fitting) p q := by
  obtain ⟨m, moves, last⟩ := passes
  have early : Moves (fun act => act.byOwn who ∧ act.fitting) p m :=
    moves.mono fun _ calm => ⟨calm.1, Act.calmFitting calm.2⟩
  obtain rfl | ⟨act, own, fits, move⟩ := last
  · exact early
  · exact early.trans (.one ⟨own, fits⟩ move)

/- Whoever keeps a copy of a page finds on it what has been there, unless it is the copy in the
cache. -/
theorem carries (passes : Passes who p q) (housed : p.Housed) (tracks : p.Tracks frame) :
    q.Tracks frame ∧ ((∀ slot, (q.latest frame).get? slot = (p.latest frame).get? slot) ∨
      ∃ held, q.resident.get? frame.page.id = some held ∧ held.id = frame.id) := by
  obtain ⟨m, moves, last⟩ := passes
  obtain ⟨between, kept⟩ := tracks.calmMoves housed (fun _ => And.right) moves
  obtain rfl | ⟨act, _, _, move⟩ := last
  · exact ⟨between, .inl kept⟩
  · refine ⟨between.move ((housed.moves moves).move move) move, ?_⟩
    obtain same | ⟨held, present, same, _⟩ := between.latest move
    · exact .inl fun slot => by rw [same, kept]
    · exact .inr ⟨held, present, same⟩

end Passes

theorem callPasses (housed : p.Housed) (call : PoolCall) (admitted : sharing.Admits call p)
    (fits : ∀ file, call = .register file → file.layout.slots ≤ UInt32.size) :
    (call.work p).Meets (Passes call.txn?) (Interlude call.txn?)
      (fun p _ q => Passes call.txn? p q) p := by
  have fitting {act : Act} (changes : call.changes act) : act.fitting := by
    cases act with
    | register file =>
      cases call with
      | register => exact changes ▸ fits _ rfl
      | _ => exact changes.elim
    | _ => trivial
  refine Progress.Meets.mono (callReaches housed call admitted) (fun _ _ => .calm)
    (fun _ _ same => same) fun _ _ q ended => ?_
  obtain ⟨m, moves, last⟩ := ended
  refine ⟨m, moves, last.imp id fun changed => ?_⟩
  obtain ⟨act, changes, move⟩ := changed
  exact ⟨act, PoolCall.changesOwn changes, fitting changes, move⟩

end Pool

def Progress.Prompt {σ α : Type} (p : Progress σ α) : Prop := ∃ r, p = .ended r

namespace Progress.Prompt

variable {σ α β : Type} {p : Progress σ α}

theorem andThen {next : α → σ → Progress σ β} (first : p.Prompt)
    (rest : ∀ a s, (next a s).Prompt) : (p.andThen next).Prompt := by
  obtain ⟨r, rfl⟩ := first
  cases r with
  | ok a s => exact rest a s
  | error e s => exact ⟨_, rfl⟩

theorem attempt (prompt : p.Prompt) : p.attempt.Prompt := by
  obtain ⟨r, rfl⟩ := prompt
  cases r <;> exact ⟨_, rfl⟩

theorem meets {stretch others others' : σ → σ → Prop} {done : σ → α → σ → Prop} {s : σ}
    (prompt : p.Prompt) (h : p.Meets stretch others done s) : p.Meets stretch others' done s := by
  obtain ⟨r, rfl⟩ := prompt
  exact Progress.meetsEnded h.ends

end Progress.Prompt

namespace Cursor

theorem seekPrompt {c : Cursor} (nobody : c.txn = none) (left : Nat) (number : UInt32) (p : Pool) :
    (c.seek left number p).Prompt := by
  have visits (number : UInt32) (p : Pool) : (c.file.visit c.txn number p).Prompt := by
    refine Progress.Prompt.andThen ⟨_, rfl⟩ fun count q => ?_
    rw [nobody]
    split
    · exact ⟨_, rfl⟩
    · exact .andThen ⟨_, rfl⟩ fun _ _ => ⟨_, rfl⟩
  induction left generalizing number p with
  | zero => exact ⟨_, rfl⟩
  | succ left ih =>
    refine (visits number p).andThen fun frame? q => ?_
    cases frame? with
    | none => exact ⟨_, rfl⟩
    | some frame =>
      cases taken : take frame.page number 0 frame with
      | none =>
        simp only [taken]
        exact ih (number + 1) q
      | some x =>
        simp only [taken]
        exact ⟨_, rfl⟩

theorem nextPrompt {c : Cursor} (nobody : c.txn = none) (p : Pool) : (c.next p).Prompt := by
  have stepped : (c.step p).Prompt := by
    unfold step
    cases c.position with
    | exhausted => exact ⟨_, rfl⟩
    | unopened => exact seekPrompt nobody _ _ p
    | onPage number slot frame =>
      refine Progress.Prompt.andThen ⟨.ok p p, rfl⟩ fun m q => ?_
      cases taken : take (m.latest frame) number slot frame with
      | none => exact seekPrompt nobody _ _ q
      | some x => exact ⟨_, rfl⟩
  refine stepped.attempt.andThen fun x q => ?_
  cases x <;> exact ⟨_, rfl⟩

/- Nobody asks for a table with slots that have no numbers; tables may share volumes. -/
def fitting (who : Option TxnId) : Service Browsing Browse Browsed :=
  {service who with
    Admits := fun r s => ∀ call, r = .call call → Pool.sharing.Admits call s.pool ∧
      ∀ file, call = .register file → file.layout.slots ≤ UInt32.size}

theorem Yields.same {c d : Cursor} {p q : Pool} {outcome : Except Error (Option Record)}
    (yields : c.Yields p outcome d q) : d.file = c.file ∧ d.txn = c.txn := by
  cases yields <;> exact ⟨rfl, rfl⟩

end Cursor

/- A cursor on a table, in somebody's name or in nobody's, and perhaps a record to look out for. -/
structure Walk where
  who : Option TxnId
  file : HeapFile
  wanted : Option (Rid × Bytes)

namespace Walk

open Cursor (outcomes yielded Recited Covers)

variable (w : Walk)

def Guard (p : Pool) : Prop :=
  ∀ rid data, w.wanted = some (rid, data) → p.InPlace w.file rid data ∧ p.Numbered w.file.table

structure Ongoing (h : History Browse Browsed) (s : Browsing) : Prop where
  tidy : s.pool.Tidy
  fitting : s.pool.Fitting
  file : s.cursor.file = w.file
  own : s.cursor.txn = w.who
  stood : s.cursor.Stood s.pool
  recited : Recited w.file.table (outcomes h) s.cursor.position

/- Besides, the record that is looked out for is in place, and it has been told or will be,
unless something has failed. -/
structure Watching (h : History Browse Browsed) (s : Browsing) : Prop extends w.Ongoing h s where
  guarded : w.Guard s.pool
  shows : ∀ rid data, w.wanted = some (rid, data) → s.cursor.Shows s.pool rid data
  covered : ∀ rid data, w.wanted = some (rid, data) → ⟨some rid, data⟩ ∈ yielded (outcomes h) ∨
    (∃ e, .error e ∈ outcomes h) ∨ s.cursor.position.Ahead rid

structure Stretch (r : Browse) (s t : Browsing) : Prop where
  cursor : t.cursor = s.cursor
  passes : Pool.Passes (r.txn? w.who) s.pool t.pool

structure Others (r : Browse) (s t : Browsing) : Prop where
  pool : Interlude (r.txn? w.who) s.pool t.pool
  before : w.Guard s.pool
  guarded : w.Guard t.pool
  cursor : ∀ txn, w.who = some txn → r.txn? w.who = some txn → t.cursor = s.cursor

inductive Done : Browse → Browsing → Browsed → Browsing → Prop
  | call {call : PoolCall} {s t : Browsing} (stretch : w.Stretch (.call call) s t) :
      Done (.call call) s .done t
  | next {s t : Browsing} {outcome} (yields : s.cursor.Yields s.pool outcome t.cursor t.pool)
      (covers : ∀ rid data, w.wanted = some (rid, data) → t.pool.InPlace w.file rid data →
        Covers rid data s.cursor.position outcome t.cursor.position) : Done .next s (.got outcome) t
  | rewind {s : Browsing} : Done .rewind s .done {s with cursor := s.cursor.rewind}

variable {w} {h h' : History Browse Browsed} {s t : Browsing} {r : Browse}

theorem Ongoing.stretch (ongoing : w.Ongoing h s) (stretch : w.Stretch r s t)
    (same : outcomes h' = outcomes h) : w.Ongoing h' t where
  tidy := ongoing.tidy.moves stretch.passes.moves
  fitting := ongoing.fitting.moves (fun _ => And.right) stretch.passes.moves
  file := stretch.cursor ▸ ongoing.file
  own := stretch.cursor ▸ ongoing.own
  stood := by
    rw [stretch.cursor]
    intro number slot frame stands
    obtain ⟨own, inside, tracks⟩ := ongoing.stood number slot frame stands
    exact ⟨own, inside, (stretch.passes.carries ongoing.tidy.toHoused tracks).1⟩
  recited := by
    rw [stretch.cursor, same]
    exact ongoing.recited

theorem Watching.stretch (watching : w.Watching h s) (stretch : w.Stretch r s t)
    (guarded : w.Guard t.pool) (same : outcomes h' = outcomes h) : w.Watching h' t where
  toOngoing := watching.toOngoing.stretch stretch same
  guarded := guarded
  shows rid data wanted := by
    rw [stretch.cursor]
    intro number slot frame stands here reached
    have shown := watching.shows rid data wanted number slot frame stands here reached
    have inPlace := (guarded rid data wanted).1
    obtain ⟨own, _, tracks⟩ := watching.stood number slot frame stands
    obtain ⟨_, kept | ⟨held, present, named⟩⟩ :=
      stretch.passes.carries watching.tidy.toHoused tracks
    · exact (kept _).trans shown
    · rw [Pool.latestResident present named]
      rw [own, watching.file, here, ← inPlace.home] at present
      exact inPlace.shown (watching.tidy.moves stretch.passes.moves).toHoused present
  covered rid data wanted := by
    rw [stretch.cursor, same]
    exact watching.covered rid data wanted

theorem Ongoing.yields (ongoing : w.Ongoing h s) {outcome : Except Error (Option Record)}
    (yields : s.cursor.Yields s.pool outcome t.cursor t.pool) :
    w.Ongoing ((.next, .ok (.got outcome)) :: h) t := by
  obtain ⟨file, txn⟩ := yields.same
  have tidy := ongoing.tidy.moves yields.moves
  have fitting := ongoing.fitting.moves
    (fun _ own => Act.calmFitting (Act.seeksCalm (Act.readsSeeks own)).2) yields.moves
  have recited := ongoing.recited
  rw [← ongoing.file] at recited
  obtain ⟨told, stood⟩ := recited.yields ongoing.stood ongoing.fitting tidy fitting yields
  rw [file, ongoing.file] at told
  exact ⟨tidy, fitting, file.trans ongoing.file, txn.trans ongoing.own, stood, told⟩

theorem Watching.yields (watching : w.Watching h s) (guarded : w.Guard t.pool)
    {outcome : Except Error (Option Record)}
    (yields : s.cursor.Yields s.pool outcome t.cursor t.pool)
    (covers : ∀ rid data, w.wanted = some (rid, data) → t.pool.InPlace w.file rid data →
      Covers rid data s.cursor.position outcome t.cursor.position) :
    w.Watching ((.next, .ok (.got outcome)) :: h) t where
  toOngoing := watching.toOngoing.yields yields
  guarded := guarded
  shows rid data wanted := by
    have inPlace := (guarded rid data wanted).1
    have housed := (watching.toOngoing.yields yields).tidy.toHoused
    have shows := watching.shows rid data wanted
    obtain ⟨pool, cursor⟩ := t
    cases yields with
    | spent => exact nofun
    | @here number slot frame record position stands taken =>
      obtain ⟨used, _, rfl, behind⟩ := Cursor.takeSource taken
      rintro _ _ _ ⟨⟩ here reached
      exact shows number slot frame stands here (Nat.le_trans (Nat.le_succ_of_le behind) reached)
    | @further number frame record position _ moves present _ taken =>
      obtain ⟨used, _, rfl, _⟩ := Cursor.takeSource taken
      rintro _ _ _ ⟨⟩ here _
      obtain ⟨_, _, key, _⟩ := housed.keeps _ frame present
      rw [← key] at present
      rw [Pool.latestResident present rfl]
      rw [key, watching.file, here, ← inPlace.home] at present
      exact inPlace.shown housed present
  covered rid data wanted := by
    have later {record : Record} (told : record ∈ yielded (outcomes h)) :
        record ∈ yielded (outcome :: outcomes h) := by
      obtain ⟨before, there, found⟩ := List.mem_filterMap.mp told
      exact List.mem_filterMap.mpr ⟨before, List.mem_cons_of_mem _ there, found⟩
    rcases watching.covered rid data wanted with told | ⟨e, failed⟩ | ahead
    · exact .inl (later told)
    · exact .inr (.inl ⟨e, List.mem_cons_of_mem _ failed⟩)
    · rcases covers rid data wanted (guarded rid data wanted).1 ahead with ⟨e, rfl⟩ | rfl | still
      · exact .inr (.inl ⟨e, List.mem_cons_self⟩)
      · exact .inl (List.mem_filterMap.mpr ⟨_, List.mem_cons_self, rfl⟩)
      · exact .inr (.inr still)

theorem Watching.rewind (watching : w.Watching h s) :
    w.Watching ((.rewind, .ok .done) :: h) {s with cursor := s.cursor.rewind} where
  tidy := watching.tidy
  fitting := watching.fitting
  file := watching.file
  own := watching.own
  stood := nofun
  recited := .start _
  guarded := watching.guarded
  shows _ _ _ := nofun
  covered _ _ _ := .inr (.inr trivial)

theorem Watching.done (watching : w.Watching h s) (guarded : w.Guard t.pool) {a : Browsed}
    (done : w.Done r s a t) : w.Watching ((r, .ok a) :: h) t := by
  cases done with
  | call stretch => exact watching.stretch stretch guarded rfl
  | next yields covers => exact watching.yields guarded yields covers
  | rewind => exact watching.rewind

theorem Done.moves {a : Browsed} (own : s.cursor.txn = w.who) (done : w.Done r s a t) :
    Moves (Act.byOwn (r.txn? w.who)) s.pool t.pool := by
  cases done with
  | call stretch => exact stretch.passes.moves.mono fun _ => And.left
  | next yields => exact own ▸ yields.own
  | rewind => exact .refl

/- The law of the walk. -/

theorem callMeets (watching : w.Watching h s) {call : PoolCall}
    (admitted : (Cursor.fitting w.who).Admits (.call call) s) :
    ((Browse.call call).work s).Meets (w.Stretch (.call call)) (w.Others (.call call))
      (w.Done (.call call)) s := by
  obtain ⟨asked, fits⟩ := admitted call rfl
  have passes := Pool.callPasses watching.tidy.toHoused call asked fits
  refine (Browse.callWork passes).mono (fun _ _ moved => ⟨moved.1, moved.2⟩)
    (fun _ _ others => others.pool) fun _ _ _ ended => ?_
  obtain ⟨rfl, same, passes⟩ := ended
  exact .call ⟨same, passes⟩

theorem cursorMeets (watching : w.Watching h s) :
    (s.cursor.next s.pool).Meets (Moves (Act.reads w.who))
      (fun a b => Interlude w.who a b ∧ w.Guard a ∧ w.Guard b)
      (fun p x q => s.cursor.Yields p x.1 x.2 q ∧ ∀ rid data, w.wanted = some (rid, data) →
        q.InPlace w.file rid data → Covers rid data s.cursor.position x.1 x.2.position) s.pool := by
  have own := watching.own
  have yields := s.cursor.nextMeets watching.tidy.toHoused
  rw [own] at yields
  have yields := yields.mono (fun _ _ same => same)
    (fun a b (acted : Interlude w.who a b ∧ w.Guard a ∧ w.Guard b) => acted.1)
    fun _ _ _ same => same
  cases wanted : w.wanted with
  | none =>
    exact yields.mono (fun _ _ same => same) (fun _ _ same => same)
      fun _ _ _ yields => ⟨yields, nofun⟩
  | some x =>
    obtain ⟨rid, data⟩ := x
    obtain ⟨inPlace, numbered⟩ := watching.guarded rid data wanted
    rw [← watching.file] at inPlace numbered ⊢
    have covers := Cursor.nextCovers (fun a b => Interlude w.who a b ∧ w.Guard a ∧ w.Guard b)
      (fun a b acted => ⟨own ▸ acted.1, watching.file.symm ▸ (acted.2.1 rid data wanted).1,
        watching.file.symm ▸ (acted.2.2 rid data wanted).1,
        watching.file.symm ▸ (acted.2.2 rid data wanted).2⟩) watching.tidy.toHoused
      inPlace numbered watching.stood (watching.shows rid data wanted)
    refine (yields.both covers).mono (fun _ _ => And.left) (fun _ _ same => same)
      fun _ _ _ both => ⟨both.1, ?_⟩
    rintro _ _ ⟨⟩
    exact both.2

theorem nextMeets (watching : w.Watching h s) :
    (Browse.next.work s).Meets (w.Stretch .next) (w.Others .next) (w.Done .next) s := by
  have whole : (Browse.next.work s).Meets (w.Stretch .next)
      (fun a b => w.Others .next a b ∧ b.cursor = a.cursor) (w.Done .next) s := by
    refine (Browse.nextWork (cursorMeets watching)).mono (fun _ _ moved => ?_)
      (fun _ _ others => ⟨⟨others.1.pool, others.1.before, others.1.guarded⟩, others.2⟩)
      fun _ _ _ ended => ?_
    · exact ⟨moved.1, .calm (moved.2.mono fun _ reads => Act.seeksCalm (Act.readsSeeks reads))⟩
    · obtain ⟨outcome, rfl, same, yields, covers⟩ := ended
      exact .next (same ▸ yields) (same ▸ covers)
  cases who : w.who with
  | none =>
    -- nobody's cursor never waits
    refine Progress.Prompt.meets ?_ whole
    obtain ⟨r, same⟩ := Cursor.nextPrompt (watching.own.trans who) s.pool
    change (Progress.andThen _
      (Progress.within Browsing.poolPart s (s.cursor.next s.pool))).Prompt
    rw [same]
    exact .andThen ⟨_, rfl⟩ fun _ _ => ⟨_, rfl⟩
  | some txn =>
    exact whole.mono (fun _ _ same => same)
      (fun _ _ others => ⟨others, others.cursor txn who who⟩) fun _ _ _ same => same

theorem law (w : Walk) : (Cursor.fitting w.who).LawUnder (fun s => w.Guard s.pool) w.Watching
    w.Stretch w.Others w.Done where
  works r watching admitted := by
    cases r with
    | call call => exact callMeets watching admitted
    | next => exact nextMeets watching
    | rewind => exact Done.rewind
  stops _ watching guarded stretch := watching.stretch stretch guarded rfl
  fails r _ watching guarded stretch := watching.stretch stretch guarded (by cases r <;> rfl)
  ends _ _ watching guarded done := watching.done guarded done
  idle _ watching :=
    ⟨.refl watching.tidy.toHoused, watching.guarded, watching.guarded, fun _ _ _ => rfl⟩
  join _ _ _ _ first second := ⟨first.pool.trans second.pool, first.before, second.guarded,
    fun txn own mine => (second.cursor txn own mine).trans (first.cursor txn own mine)⟩
  aside _ _ watching guarded free stretch :=
    ⟨(stretch.passes.moves.mono fun _ => And.left).interlude watching.tidy.toHoused free,
      watching.guarded, guarded, fun _ _ _ => stretch.cursor⟩
  asideDone _ _ _ watching guarded free done := by
    have moves := done.moves watching.own
    refine ⟨moves.interlude watching.tidy.toHoused free, watching.guarded, guarded,
      fun txn own mine => ?_⟩
    cases done with
    | call stretch => exact stretch.cursor
    | next | rewind => exact absurd mine (free txn own)

end Walk

namespace Cursor

variable {config : Config} {storage : Storage} {draws : List Nat} {file : HeapFile}
  {who : Option TxnId} {h h' : History Browse Browsed} {t t' : Traffic Browsing Browse Browsed}
  {rid : Rid} {data : Bytes}

def opened (config : Config) (storage : Storage) (draws : List Nat) (file : HeapFile)
    (who : Option TxnId) : Browsing :=
  ⟨{Pool.ofConfig config storage with draws}, .ofFile file who⟩

/- Stretches of work after each of which the record is in place. -/
def Steady (who : Option TxnId) (file : HeapFile) (rid : Rid) (data : Bytes) :
    History Browse Browsed × Traffic Browsing Browse Browsed →
      History Browse Browsed × Traffic Browsing Browse Browsed → Prop :=
  Relation.ReflTransGen fun x y => (fitting who).Step x y ∧ y.2.state.pool.InPlace file rid data

abbrev Orderly (w : Walk) (h : History Browse Browsed) (t : Traffic Browsing Browse Browsed) :
    Prop := Service.Orderly (fitting w.who) w.Watching w.Stretch w.Others w.Done h t

theorem runOrderly (run : (fitting who).Run (opened config storage draws file who) h t) :
    Orderly ⟨who, file, none⟩ h t := by
  have sound : Pool.Sound {Pool.ofConfig config storage with draws} :=
    Pool.newSound config storage draws
  have unwatched : Relation.ReflTransGen (fun x y => (fitting who).Step x y ∧
      (Walk.mk who file none).Guard y.2.state.pool) ([], ⟨opened config storage draws file who, []⟩)
      (h, t) := Relation.ReflTransGen.mono (fun _ _ step => ⟨step, nofun⟩) _ _ run.steps
  refine (Walk.law ⟨who, file, none⟩).steps (.start ?_) unwatched
  exact {
    tidy := ⟨sound, LockTable.emptyCoherent, nofun, nofun⟩
    fitting := nofun
    file := rfl
    own := rfl
    stood := nofun
    recited := .start _
    guarded := nofun
    shows := nofun
    covered := nofun }

theorem lookOut (orderly : Orderly ⟨who, file, none⟩ h t) (fresh : outcomes h = [])
    (idle : ∀ w ∈ t.waiting, w.request ≠ .next) (inPlace : t.state.pool.InPlace file rid data)
    (numbered : t.state.pool.Numbered file.table) : Orderly ⟨who, file, some (rid, data)⟩ h t := by
  have unopened := orderly.holds.recited.fresh fresh
  have done {r : Browse} {s u : Browsing} {a : Browsed} (other : r ≠ .next)
      (done : Walk.Done ⟨who, file, none⟩ r s a u) :
      Walk.Done ⟨who, file, some (rid, data)⟩ r s a u := by
    cases done with
    | call stretch => exact .call ⟨stretch.cursor, stretch.passes⟩
    | next => exact absurd rfl other
    | rewind => exact .rewind
  refine ⟨?_, fun w there u acted => ?_, orderly.apart⟩
  · have holds := orderly.holds
    exact {
      tidy := holds.tidy
      fitting := holds.fitting
      file := holds.file
      own := holds.own
      stood := holds.stood
      recited := holds.recited
      guarded := by
        rintro _ _ ⟨⟩
        exact ⟨inPlace, numbered⟩
      shows := fun _ _ _ number slot frame stands => by
        rw [unopened] at stands
        cases stands
      covered := fun _ _ _ => .inr (.inr (by rw [unopened]; trivial)) }
  · refine (orderly.ready w there u ⟨acted.pool, nofun, nofun, acted.cursor⟩).mono
      (fun _ _ stretch => ⟨stretch.cursor, stretch.passes⟩)
      (fun _ _ others => ⟨others.pool, nofun, nofun, others.cursor⟩)
      fun _ _ _ => done (idle w there)

theorem Recited.spentNow {table : TableId} {told : Told} {position : Position}
    (recited : Recited table told position) (last : told.head? = some (.ok none)) :
    position = .exhausted := by
  refine Decidable.byContradiction fun going => ?_
  obtain ⟨record, same⟩ := recited.going going _ (List.mem_of_head? last)
  cases same

theorem stepGrew {x y : History Browse Browsed × Traffic Browsing Browse Browsed}
    (orderly : Orderly ⟨who, file, none⟩ x.1 x.2) (step : (fitting who).Step x y) :
    Pool.Grew x.2.state.pool y.2.state.pool := by
  obtain ⟨r, waiting, p, rfl, _, _, meets⟩ := (Walk.law ⟨who, file, none⟩).source orderly step
  cases p with
  | ended outcome =>
    cases outcome with
    | ok a t => exact (Walk.Done.moves orderly.holds.own meets).grew
    | error e t => exact (Walk.Stretch.passes meets).moves.grew
  | waiting t resume => exact meets.1.passes.moves.grew

/- Pages that can be counted in the end could always be counted. -/
theorem Steady.guarded {x y : History Browse Browsed × Traffic Browsing Browse Browsed}
    (orderly : Orderly ⟨who, file, none⟩ x.1 x.2) (steady : Steady who file rid data x y)
    (numbered : y.2.state.pool.Numbered file.table) : x.2.state.pool.Numbered file.table ∧
      Relation.ReflTransGen (fun x y => (fitting who).Step x y ∧
        (Walk.mk who file (some (rid, data))).Guard y.2.state.pool) x y := by
  induction steady using Relation.ReflTransGen.head_induction_on with
  | refl => exact ⟨numbered, .refl⟩
  | head first _ ih =>
    have later := (Walk.law ⟨who, file, none⟩).step orderly first.1 nofun
    obtain ⟨there, rest⟩ := ih later
    refine ⟨there.before (stepGrew orderly first.1), .head ⟨first.1, ?_⟩ rest⟩
    rintro _ _ ⟨⟩
    exact ⟨first.2, there⟩

/-- What a cursor tells from one rewinding to the next, whoever works on the pool meanwhile: it
ascends, and after a failure or the end there is nothing more. A record that is in place before the
first step and stays there until the end is found without a failure is told once, if the pages of
the table can be counted in words. And no step goes on for ever. -/
theorem walksWhole (run : (fitting who).Run (opened config storage draws file who) h t) :
    Ordered file.table (outcomes h) ∧
      (outcomes h).countP (fun outcome => !outcome.isOk) ≤ 1 ∧
      (∀ rid data h' t', outcomes h = [] → (∀ w ∈ t.waiting, w.request ≠ .next) →
        t.state.pool.InPlace file rid data → Steady who file rid data (h, t) (h', t') →
        t'.state.pool.Numbered file.table → (outcomes h').head? = some (.ok none) →
          (∀ e, .error e ∉ outcomes h') →
        (yielded (outcomes h')).count ⟨some rid, data⟩ = 1) ∧
      ∀ (c : Cursor) p, c.Halts p := by
  have orderly := runOrderly run
  have ordered := orderly.holds.recited.toOrdered
  refine ⟨ordered, ordered.failsOnce, ?_, nextHalts⟩
  intro rid data h' t' fresh idle inPlace steady numbered last unfailed
  obtain ⟨numbers, watched⟩ := steady.guarded orderly numbered
  have lasting := (Walk.law ⟨who, file, some (rid, data)⟩).steps
    (lookOut orderly fresh idle inPlace numbers) watched
  have recited := lasting.holds.recited
  have told : ⟨some rid, data⟩ ∈ yielded (outcomes h') := by
    rcases lasting.holds.covered rid data rfl with told | ⟨e, failed⟩ | ahead
    · exact told
    · exact absurd failed (unfailed e)
    · rw [recited.spentNow last] at ahead
      exact ahead.elim
  exact List.count_eq_one_of_mem recited.toOrdered.distinct told

/- A walk by nobody over two pages, the first one with two records of which somebody deletes the
second after the first has been told. -/

def sampleOpened : History Browse Browsed × Traffic Browsing Browse Browsed :=
  (fitting none).next (.call (.register sampleFile))
    ([], ⟨opened {poolSize := 2} sampleStorage [] sampleFile none, []⟩)

def sampleTold : History Browse Browsed × Traffic Browsing Browse Browsed :=
  (fitting none).next .next sampleOpened

def sampleRid : Rid := ⟨⟨1, 0⟩, 0⟩

def sampleCleared : History Browse Browsed × Traffic Browsing Browse Browsed :=
  (fitting none).next (.call (.delete 1 (some ⟨⟨1, 0⟩, 1⟩))) sampleTold

def sampleEnded : History Browse Browsed × Traffic Browsing Browse Browsed :=
  (fitting none).next .next sampleCleared

theorem sampleWhole : (fitting none).Run (opened {poolSize := 2} sampleStorage [] sampleFile none)
      sampleOpened.1 sampleOpened.2 ∧
    Steady none sampleFile sampleRid [1, 0, 0, 0] sampleOpened sampleEnded ∧
    outcomes sampleEnded.1 = [.ok none, .ok (some (sampleRecord 0 1))] ∧
    (yielded (outcomes sampleEnded.1)).count ⟨some sampleRid, [1, 0, 0, 0]⟩ = 1 := by
  have run : (fitting none).Run (opened {poolSize := 2} sampleStorage [] sampleFile none)
      sampleOpened.1 sampleOpened.2 :=
    .alone (fitting none) .start (.call (.register sampleFile))
      (by rintro _ ⟨⟩; exact ⟨fun _ => rfl, by rintro _ ⟨⟩; decide⟩) rfl
  have placed {p : Pool} (known : p.tables.get? 1 = some sampleFile)
      (row : p.rows sampleRid = some [1, 0, 0, 0]) :
      p.InPlace sampleFile sampleRid [1, 0, 0, 0] := ⟨known, rfl, row⟩
  have step (r : Browse) {x : History Browse Browsed × Traffic Browsing Browse Browsed}
      (admitted : (fitting none).Admits r x.2.state) (idle : x.2.waiting = [])
      (there : ((fitting none).next r x).2.state.pool.InPlace sampleFile sampleRid [1, 0, 0, 0]) :
      Steady none sampleFile sampleRid [1, 0, 0, 0] x ((fitting none).next r x) :=
    .single ⟨.alone (fitting none) r admitted idle, there⟩
  have first : Steady none sampleFile sampleRid [1, 0, 0, 0] sampleOpened sampleTold :=
    step .next nofun rfl (placed (by decide) (by decide))
  have second : Steady none sampleFile sampleRid [1, 0, 0, 0] sampleTold sampleCleared :=
    step (.call (.delete 1 (some ⟨⟨1, 0⟩, 1⟩))) (by rintro _ ⟨⟩; exact ⟨trivial, nofun⟩) rfl
      (placed (by decide) (by decide))
  have third : Steady none sampleFile sampleRid [1, 0, 0, 0] sampleCleared sampleEnded :=
    step .next nofun rfl (placed (by decide) (by decide))
  have steady := (first.trans second).trans third
  have told : outcomes sampleEnded.1 = [.ok none, .ok (some (sampleRecord 0 1))] := by
    decide
  have numbered : sampleEnded.2.state.pool.Numbered sampleFile.table := fun file found => by
    have known : sampleEnded.2.state.pool.tables.get? sampleFile.table = some sampleFile := rfl
    cases known.symm.trans found
    decide
  refine ⟨run, steady, told, (walksWhole run).2.2.1 _ _ _ _ rfl nofun
    (placed (by decide) (by decide)) steady numbered ?_ ?_⟩
  · rw [told]
    rfl
  · rw [told]
    simp

/- As many pages as there are numbers. Counted in words they are none. -/

def crowdedHeld : History Browse Browsed × Traffic Browsing Browse Browsed :=
  (fitting none).next (.call (.insert 1 1 [7])) ((fitting none).next
    (.call (.register Pool.crowdedFile))
    ([], ⟨opened {poolSize := 1} (.crowded 2) [] Pool.crowdedFile none, []⟩))

def crowdedPassed : History Browse Browsed × Traffic Browsing Browse Browsed :=
  (fitting none).next .next crowdedHeld

/- The cursor finds the end of the table at once, and a record is in place. -/
theorem crowdedWalksPast :
    (fitting none).Run (opened {poolSize := 1} (.crowded 2) [] Pool.crowdedFile none)
      crowdedHeld.1 crowdedHeld.2 ∧
    outcomes crowdedHeld.1 = [] ∧ crowdedHeld.2.waiting = [] ∧
    crowdedHeld.2.state.pool.InPlace Pool.crowdedFile ⟨⟨1, 0⟩, 0⟩ [7] ∧
    Steady none Pool.crowdedFile ⟨⟨1, 0⟩, 0⟩ [7] crowdedHeld crowdedPassed ∧
    outcomes crowdedPassed.1 = [.ok none] := by
  have run : (fitting none).Run (opened {poolSize := 1} (.crowded 2) [] Pool.crowdedFile none)
      crowdedHeld.1 crowdedHeld.2 :=
    .alone (fitting none) (.alone (fitting none) .start (.call (.register Pool.crowdedFile))
      (by rintro _ ⟨⟩; exact ⟨fun _ => rfl, by rintro _ ⟨⟩; decide⟩) rfl)
      (.call (.insert 1 1 [7])) (by rintro _ ⟨⟩; exact ⟨trivial, nofun⟩) rfl
  have there : crowdedPassed.2.state.pool.InPlace Pool.crowdedFile ⟨⟨1, 0⟩, 0⟩ [7] :=
    ⟨rfl, rfl, rfl⟩
  exact ⟨run, rfl, rfl, ⟨rfl, rfl, rfl⟩,
    .single ⟨.alone (fitting none) .next nofun rfl, there⟩, rfl⟩

end Cursor
end PagedHeap
