import WaCore.AppState.Processor

/-!
# The records a snapshot folds and those it decodes

A snapshot goes through two passes.  `update_hash_from_records` folds the value MAC
of the last record for each key into the hash, by a backward scan for few records and
by a sort for many.  `last_record_per_index` picks the records that are decoded.  Both
passes and both branches take the same records, so that the hash whose MAC is
accepted is a hash of what is then stored.
-/

namespace WaCore.AppState

/-! ## The order of the operands -/

/-- An accumulator is determined by its lanes. -/
theorem laneOf_injective : Function.Injective laneOf := by
  intro a b h
  have hlength (hash : FixedBytes 128) : (lanes hash.val).length = 64 :=
    length_lanes hash.property
  have hlanes : lanes a.val = lanes b.val := by
    refine List.ext_getElem ((hlength a).trans (hlength b).symm) fun k hk hk' => ?_
    have hlane := congrFun h ⟨k, (hlength a) ▸ hk⟩
    simpa [laneOf, List.getElem?_eq_getElem hk, List.getElem?_eq_getElem hk'] using hlane
  apply Subtype.ext
  rw [← flatMap_lanes (n := 64) a.property, hlanes, flatMap_lanes (n := 64) b.property]

/-! ## The two branches -/

/-- Each record that is decoded has a value. -/
theorem isSome_value_of_mem_lastRecordPerIndex {records : List SyncdRecord} {record : SyncdRecord}
    (h : record ∈ lastRecordPerIndex records) : record.value.isSome = true := by
  rw [lastRecordPerIndex, List.mem_reverse, mem_firstPerKey] at h
  exact (List.mem_filter.mp (List.mem_of_mem_filter (List.mem_of_mem_head? h.2))).2

/-- The value MACs that are folded are those of the records that are decoded, whichever
branch finds them, and so the hash is the same. -/
theorem snapshot_fold_is_decode (P : Primitives) (state : HashState) (records : List SyncdRecord) :
    let folded := foldedTails (indexedTails records)
    (state.updateHashFromRecords P records).1.hash = subtractThenAdd P state.hash [] folded
    ∧ (folded.map some).Perm ((lastRecordPerIndex records).map fun r => r.value.map valueMacTail)
    ∧ (state.updateHashFromRecords P records).2.folded = (lastRecordPerIndex records).length
    ∧ folded = (if (indexedTails records).length ≤ macDedupScanLimit
        then scannedTails (indexedTails records) else sortedTails (indexedTails records))
    ∧ (sortedTails (indexedTails records)).Perm (scannedTails (indexedTails records))
    ∧ subtractThenAdd P state.hash [] (sortedTails (indexedTails records))
      = subtractThenAdd P state.hash [] (scannedTails (indexedTails records)) := by
  have hperm := perm_foldedTails_lastRecordPerIndex records
  have hsorted := perm_sortedTails (indexedTails records)
  refine ⟨rfl, ?_, ?_, rfl, hsorted, laneOf_injective ?_⟩
  · refine (hperm.map some).trans (.of_eq ?_)
    rw [List.map_map]
    refine List.map_congr_left fun record hrecord => ?_
    obtain ⟨blob, hblob⟩ := Option.isSome_iff_exists.mp
      (isSome_value_of_mem_lastRecordPerIndex hrecord)
    simp [hblob]
  · rw [← List.length_map]
    exact hperm.length_eq
  · rw [laneOf_subtractThenAdd, laneOf_subtractThenAdd, (hsorted.map (share P)).sum_eq]

end WaCore.AppState
