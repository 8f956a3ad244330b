import Tablespace.Proofs.Index.Sizes

/-!
# Parting an internal node

An internal node that one separator made too large parts into two that fit,
each with a separator of its own, around one that goes up.
-/

namespace Tablespace

namespace Internal

variable {n : Internal}

theorem fits_iff : n.fits = true ↔ headerSize + totalSize (n.keys.map keySize) ≤ pageSize :=
  decide_eq_true_iff

structure Overfull (n : Internal) : Prop where
  key_le : ∀ k ∈ n.keys, k.encodedSize ≤ Key.maxSize
  length_eq : n.children.length = n.keys.length + 1
  exceeds : pageSize < headerSize + totalSize (n.keys.map keySize)
  by_one : totalSize (n.keys.map keySize) ≤ pageSize - headerSize + (Key.maxSize + 4)

theorem overfull_of_insertChild {index : Nat} {separator : Key} {right : PageNum} (hfits : n.fits = true)
    (hexceeds : (n.insertChild index separator right).fits = false)
    (hlength : (n.insertChild index separator right).children.length
      = (n.insertChild index separator right).keys.length + 1)
    (hkey : ∀ k ∈ (n.insertChild index separator right).keys, k.encodedSize ≤ Key.maxSize) :
    (n.insertChild index separator right).Overfull where
  key_le := hkey
  length_eq := hlength
  exceeds := by
    rw [← Bool.not_eq_true, fits_iff] at hexceeds
    exact Nat.lt_of_not_le hexceeds
  by_one := by
    have hsum : totalSize ((n.insertChild index separator right).keys.map keySize)
        ≤ totalSize (n.keys.map keySize) + (Key.maxSize + 4) :=
      totalSize_insertIdx_le fun k hk => Nat.add_le_add_right (hkey k hk) 4
    have hfits := fits_iff.mp hfits
    simp only [headerSize, pageSize] at hfits ⊢
    omega

theorem Overfull.keySize_le (h : n.Overfull) : ∀ s ∈ n.keys.map keySize, s ≤ Key.maxSize + 4 := by
  intro s hs
  obtain ⟨k, hk, rfl⟩ := List.mem_map.mp hs
  exact Nat.add_le_add_right (h.key_le k hk) 4

theorem Overfull.length_gt (h : n.Overfull) : 3 ≤ n.keys.length := by
  have hone : totalSize ((n.keys.map keySize).take 1) ≤ _ := totalSize_take_succ_le h.keySize_le 0
  have htwo := totalSize_take_succ_le h.keySize_le 1
  have hexceeds := h.exceeds
  rcases Nat.lt_or_ge n.keys.length 3 with hlt | hge
  · rw [List.take_of_length_le (by rw [List.length_map]; omega)] at htwo
    simp only [List.take_zero, totalSize, Key.maxSize, headerSize, pageSize] at hone htwo hexceeds
    omega
  · exact hge

theorem Overfull.pos (h : n.Overfull) : 0 < totalSize (n.keys.map keySize) := by
  have := h.exceeds
  simp only [headerSize, pageSize] at this
  omega

/-- The two halves and the separator between them. -/
structure Parted (n lower : Internal) (promoted : Key) (upper : Internal) : Prop where
  keys_eq : n.keys = lower.keys ++ promoted :: upper.keys
  children_eq : n.children = lower.children ++ upper.children
  lower_length : lower.children.length = lower.keys.length + 1
  upper_length : upper.children.length = upper.keys.length + 1
  lower_fits : lower.fits = true
  upper_fits : upper.fits = true

theorem Overfull.split?_eq (h : n.Overfull) :
    ∃ lower promoted upper, n.split? = some (lower, promoted, upper) ∧ Parted n lower promoted upper := by
  have hlen := h.length_gt
  have hmid := (sizeMidpoint_spec h.pos).1
  rw [List.length_map] at hmid
  have hsum := h.by_one
  have hchildren := h.length_eq
  generalize hcut : max 1 (min (sizeMidpoint (n.keys.map keySize)) (n.keys.length - 2)) = cut
  have hlt : cut < n.keys.length := by omega
  have hlower := totalSize_take_le h.keySize_le h.pos (show cut ≤ max 1 (sizeMidpoint (n.keys.map keySize)) by omega)
  have hupper : totalSize ((n.keys.map keySize).drop (cut + 1))
      ≤ totalSize (n.keys.map keySize) / 2 + (Key.maxSize + 4) :=
    totalSize_drop_le h.keySize_le h.pos (by omega)
  rw [← List.map_take] at hlower
  rw [← List.map_drop] at hupper
  simp only [Key.maxSize, headerSize, pageSize] at hlower hupper hsum
  refine ⟨⟨n.keys.take cut, n.children.take (cut + 1)⟩, n.keys[cut],
    ⟨n.keys.drop (cut + 1), n.children.drop (cut + 1)⟩, ?_, ?_⟩
  · unfold split?
    rw [if_neg (by omega)]
    simp only [hcut, List.getElem?_eq_getElem hlt, Option.map_some]
  · refine ⟨?_, (List.take_append_drop _ _).symm, ?_, ?_, ?_, ?_⟩
    · rw [List.getElem_cons_drop, List.take_append_drop]
    · simp only [List.length_take]
      omega
    · simp only [List.length_drop]
      omega
    · rw [fits_iff]
      simp only [headerSize, pageSize]
      omega
    · rw [fits_iff]
      simp only [headerSize, pageSize]
      omega

end Internal

end Tablespace
