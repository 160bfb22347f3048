import PagedHeap.Proofs.Upkeep

/-! Work that never asks a volume to store a page. Looking for places, changing records and making
room all do without: what leaves the cache has nothing to write. -/
namespace PagedHeap

namespace Storage

/- Calls may have come since, but none to write. -/
def Unwritten (s t : Storage) : Prop :=
  ∀ v, ∃ later, (t.volume v).calls = later ++ (s.volume v).calls ∧ ∀ page, Call.write page ∉ later

namespace Unwritten

variable {s t u : Storage}

theorem refl (s : Storage) : Unwritten s s := fun _ => ⟨[], rfl, fun _ => List.not_mem_nil⟩

theorem trans (first : Unwritten s t) (second : Unwritten t u) : Unwritten s u := fun v => by
  obtain ⟨early, before, none⟩ := first v
  obtain ⟨late, after, nothing⟩ := second v
  refine ⟨late ++ early, by rw [after, before, List.append_assoc], fun page wrote => ?_⟩
  exact (List.mem_append.mp wrote).elim (nothing page) (none page)

instance : Std.Refl Unwritten := ⟨refl⟩

instance : Trans Unwritten Unwritten Unwritten := ⟨trans⟩

theorem update {v : VolumeId} {change : Volume → Volume} (later : List Call)
    (calls : ∀ x, (change x).calls = later ++ x.calls) (none : ∀ page, Call.write page ∉ later) :
    Unwritten s (s.update v change) := fun w => by
  rw [volumeUpdate]
  split
  · exact ⟨later, calls _, none⟩
  · exact refl s w

end Unwritten

theorem unwrittenUpkeep : Upkeep Unwritten where
  logs _ call other _ :=
    .update [call] (fun _ => rfl) fun page wrote => other page (List.mem_singleton.mp wrote).symm
  meets v point page s := by
    unfold met
    split
    · exact .update [] (fun _ => rfl) fun _ => List.not_mem_nil
    · split
      · exact .refl s
      · exact .update [] (fun _ => rfl) fun _ => List.not_mem_nil
  grows s v _ := by
    unfold extend
    split
    · exact .update [] (fun _ => rfl) fun _ => List.not_mem_nil
    · exact .refl s

end Storage

namespace Pool

variable {p q : Pool}

def Unwritten (p q : Pool) : Prop := p.storage.Unwritten q.storage

theorem Unwritten.same (storage : q.storage = p.storage) : Unwritten p q := by
  unfold Unwritten
  rw [storage]
  exact .refl _

instance : Std.Refl Unwritten := ⟨fun p => .refl p.storage⟩

instance : Trans Unwritten Unwritten Unwritten := ⟨Storage.Unwritten.trans⟩

theorem unwrittenUpkeep (who : Option TxnId) : Upkeep who Unwritten :=
  .ofStorage Storage.unwrittenUpkeep (fun _ _ => id) (fun _ _ _ _ _ => .same rfl)
    fun _ _ _ => .same rfl

end Pool
end PagedHeap
